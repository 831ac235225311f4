import Alpine.Dtcp.ConnMux

/-!
# Steps of the multiplexor

Two facts about a step that every result about the handshake uses. The multiplexor changes its
connection map only by calling it (`drives_step`), so whatever a run of the map keeps, a run of
the multiplexor keeps (`wellIndexed_run`). And a record in `pendingAckIndex_` lies under its own
net id (`Keyed.step`).
-/

namespace Alpine.ConnMux

open Lib
open ConnectionMap (Created WellIndexed)

variable {T C : Type}

/-- The connections the events report. -/
def attempts : List (MuxEvent T C) → List Created
  | [] => []
  | .attempt peerId address :: events => ⟨peerId, address⟩ :: attempts events
  | _ :: events => attempts events

@[simp] theorem attempts_nil : attempts ([] : List (MuxEvent T C)) = [] := rfl

@[simp] theorem attempts_append (h e : List (MuxEvent T C)) :
    attempts (h ++ e) = attempts h ++ attempts e := by
  induction h with
  | nil => rfl
  | cons x h ih => cases x <;> simp [attempts, ih]

theorem mem_attempts {h : List (MuxEvent T C)} {peerId : Nat} {address : IpPortPair} :
    (⟨peerId, address⟩ : Created) ∈ attempts h ↔ .attempt peerId address ∈ h := by
  induction h with
  | nil => simp [attempts]
  | cons x h ih => cases x <;> simp [attempts, ih]

/-! ## The connection map under the multiplexor -/

/-- The result comes from `m` by calls of its connection map, and reports the attempts they are. -/
def Drives (m : ConnMux T C) (r : MuxResult T C) : Prop :=
  ∃ ops, r.2.1.connectionMap = (ConnectionMap.machine.run m.connectionMap ops).1 ∧
    attempts r.2.2 = (ConnectionMap.machine.run m.connectionMap ops).2

section Drives

variable {m : ConnMux T C}

theorem drives_same {r : MuxResult T C} (hmap : r.2.1.connectionMap = m.connectionMap)
    (hnone : attempts r.2.2 = []) : Drives m r := ⟨[], by simpa using hmap, by simpa using hnone⟩

/-- One call that created `peerId`. -/
theorem drives_create {r : MuxResult T C} {ip port peerId : Nat} {connectionMap : ConnectionMap T}
    (hc : m.connectionMap.createConnection ip port = (some peerId, connectionMap))
    (hmap : r.2.1.connectionMap = connectionMap)
    (hone : attempts r.2.2 = [⟨peerId, ip, port⟩]) : Drives m r :=
  ⟨[.createConnection ip port], by simp [ConnectionMap.machine, hc, hmap],
    by simp [ConnectionMap.machine, hc, hone]⟩

theorem drives_index {r : MuxResult T C} (peerId : Nat) (t : T)
    (hmap : r.2.1.connectionMap = (m.connectionMap.indexConnection peerId t).2)
    (hnone : attempts r.2.2 = []) : Drives m r :=
  ⟨[.indexConnection peerId t], by simpa [ConnectionMap.machine] using hmap,
    by simpa [ConnectionMap.machine] using hnone⟩

theorem sendReliable_connectionMap (m : ConnMux T C) (msgType : PacketType) (ip port : Nat)
    (sent : Option Nat) :
    (m.sendReliable msgType ip port sent).2.1.connectionMap = m.connectionMap := by
  cases sent <;> rfl

theorem attempts_sendReliable (m : ConnMux T C) (msgType : PacketType) (ip port : Nat)
    (sent : Option Nat) : attempts (m.sendReliable msgType ip port sent).2.2 = [] := by
  cases sent <;> rfl

theorem Drives.of_same {m' : ConnMux T C} {r : MuxResult T C} (h : Drives m' r)
    (hsame : m'.connectionMap = m.connectionMap) : Drives m r := by
  unfold Drives at h
  rwa [hsame] at h

theorem drives_connRequest (request : IncomingMessage) (answers : Answers T) :
    Drives m (m.handleConnRequestPacket request answers) := by
  unfold handleConnRequestPacket createConnectionAcceptEntry
  split
  · exact drives_same rfl rfl
  split
  · exact drives_same rfl rfl
  split
  · exact drives_same rfl rfl
  split
  · exact drives_same rfl rfl
  rcases hc : m.connectionMap.createConnection request.ipAddress request.port with ⟨_ | peerId, cm⟩
  · exact drives_same rfl rfl
  · refine drives_create hc ?_ ?_
    · exact sendReliable_connectionMap _ _ _ _ _
    · simp only [Bool.true_eq_false, if_false, attempts_append, sendConnectionOffer,
        attempts_sendReliable]
      rfl

theorem drives_ack (request : IncomingMessage) (answers : Answers T) :
    Drives m (m.handleAckPacket request answers) := by
  unfold handleAckPacket
  split
  · exact drives_same rfl rfl
  split
  · unfold pendingConnAcceptComplete
    dsimp only
    split <;> exact drives_same rfl rfl
  all_goals exact drives_same rfl rfl

theorem drives_established (request : IncomingMessage) (answers : Answers T) :
    Drives m (m.handleEstablished request answers) := by
  unfold handleEstablished
  split <;> exact drives_same rfl rfl

theorem attempts_readAcceptRecord (m : ConnMux T C) (record : Nat) :
    attempts (m.readAcceptRecord record).2 = [] := by
  unfold readAcceptRecord
  split <;> rfl

theorem attempts_removePendingConnection (m : ConnMux T C) (peerId : Nat) :
    attempts (m.removePendingConnection peerId).2 = [] := by
  unfold removePendingConnection
  cases m.connectionMap.pendingIndex.find peerId <;> rfl

/-- What a run of the map keeps. -/
theorem Drives.wellIndexed {h : List (MuxEvent T C)} {r : MuxResult T C} (hd : Drives m r)
    (hm : WellIndexed (attempts h) m.connectionMap) :
    WellIndexed (attempts (h ++ r.2.2)) r.2.1.connectionMap := by
  obtain ⟨ops, hmap, hatt⟩ := hd
  rw [attempts_append, hmap, hatt]
  exact Machine.run_invariant (fun _ _ op hm => hm.step op) ops hm

variable [DecidableEq T]

theorem attempts_removeConnection (m : ConnMux T C) (t : T) :
    attempts (m.removeConnection t).2 = [] := by
  unfold removeConnection
  cases m.transports.find t <;> rfl

theorem drives_requestTransport (requestor : C) (t : T) (ip port : Nat) (sent : Option Nat) :
    Drives m (m.requestTransport requestor t ip port sent) := by
  unfold requestTransport createConnectionRequestEntry
  rcases hc : m.connectionMap.createConnection ip port with ⟨_ | peerId, cm⟩
  · exact drives_same rfl rfl
  · refine drives_create hc ?_ ?_
    · exact sendReliable_connectionMap _ _ _ _ _
    · simp only [Bool.true_eq_false, if_false, attempts_append, sendConnectionRequest,
        attempts_sendReliable]
      rfl

theorem drives_completeRequest (request : IncomingMessage) (peerId myId : Nat)
    (record : ConnRequestRecord T C) (sent : Option Nat) :
    Drives m (m.completeRequest request peerId myId record sent) := by
  apply drives_index peerId record.transport <;> unfold completeRequest
  · dsimp only
    split
    · rfl
    split <;> exact sendReliable_connectionMap _ _ _ _ _
  · dsimp only
    split
    · rfl
    split <;> exact attempts_sendReliable _ _ _ _ _

theorem drives_connOffer (request : IncomingMessage) (answers : Answers T) :
    Drives m (m.handleConnOfferPacket request answers) := by
  unfold handleConnOfferPacket
  split
  · exact drives_same rfl rfl
  split
  · exact drives_same rfl rfl
  split
  · exact drives_same rfl rfl
  dsimp only
  split
  · exact drives_same rfl rfl
  · exact (drives_completeRequest _ _ _ _ _).of_same rfl

theorem drives_completeAccept (request : IncomingMessage) (peerId record : Nat) (t : T)
    (answers : Answers T) : Drives m (m.completeAccept request peerId record t answers) := by
  have hread := attempts_readAcceptRecord m record
  apply drives_index peerId t <;> unfold completeAccept
  · dsimp only
    split
    · rfl
    split <;> rfl
  · dsimp only
    split
    · simp only [attempts_append, attempts, hread, attempts_removePendingConnection,
        List.append_nil]
    split <;> simp only [attempts_append, attempts, hread, List.append_nil]

theorem drives_connAccept (request : IncomingMessage) (answers : Answers T) :
    Drives m (m.handleConnAcceptPacket request answers) := by
  unfold handleConnAcceptPacket
  split
  · unfold checkAcceptAckRetry sendAck
    split
    · exact drives_same rfl rfl
    split
    · exact drives_same rfl rfl
    split <;> exact drives_same rfl rfl
  split
  · exact drives_same rfl rfl
  split
  · exact drives_same rfl rfl
  dsimp only
  split
  · exact drives_same rfl rfl
  split
  · exact drives_same rfl (attempts_removePendingConnection _ _)
  · exact drives_same rfl (attempts_removePendingConnection _ _)
  · exact (drives_completeAccept _ _ _ _ _).of_same rfl

theorem drives_step (m : ConnMux T C) (input : Input T C) : Drives m (m.step input) := by
  cases input with
  | requestTransport requestor t ip port sent => exact drives_requestTransport requestor t ip port sent
  | packet request answers =>
    unfold step processPacket
    dsimp only
    split
    · exact drives_connRequest request answers
    · exact drives_connOffer request answers
    · exact drives_connAccept request answers
    · exact drives_established request answers
    · exact drives_established request answers
    · exact drives_established request answers
    · exact drives_ack request answers
    all_goals exact drives_same rfl rfl
  | retriesExhausted ip port =>
    unfold step handleSendFailure
    dsimp only
    split <;> exact drives_same rfl rfl
  | removePendingConnection peerId =>
    exact ⟨[.removePendingConnection peerId], rfl, attempts_removePendingConnection m peerId⟩
  | removeConnection t =>
    exact ⟨[.removeConnection t], rfl, attempts_removeConnection m t⟩

end Drives

theorem wellIndexed_run [DecidableEq T] (now : Nat) (inputs : List (Input T C)) :
    WellIndexed (attempts (machine.run (new now) inputs).2)
      (machine.run (new now) inputs).1.connectionMap :=
  Machine.run_invariant (M := machine)
    (I := fun h m => WellIndexed (attempts h) m.connectionMap)
    (fun _ m input hm => (drives_step m input).wellIndexed hm) (h := []) (s := new now) inputs
    (ConnectionMap.wellIndexed_new now)

/-! ## Records under their net id -/

/-- Every record of `pendingAckIndex_` lies under its own net id. -/
def Keyed (m : ConnMux T C) : Prop :=
  ∀ id record, m.pendingAckIndex.find id = some record → record.netId = id

section Keyed

variable {m : ConnMux T C}

theorem Keyed.removed (hk : Keyed m) (record : PendingAckRecord) :
    Keyed (m.removePendingAckRecord record) := by
  intro id r hr
  simp only [removePendingAckRecord, UMap.find_erase] at hr
  split at hr
  · cases hr
  · exact hk id r hr

theorem Keyed.sent (hk : Keyed m) (msgType : PacketType) (ip port : Nat) (sent : Option Nat) :
    Keyed (m.sendReliable msgType ip port sent).2.1 := by
  cases sent with
  | none => exact hk
  | some requestId =>
    intro id r hr
    simp only [sendReliable, UMap.find_emplace] at hr
    split at hr
    · next heq =>
      subst heq
      cases hold : m.pendingAckIndex.find (ipPortToNetId ip port) with
      | none =>
        rw [hold] at hr
        cases hr
        rfl
      | some old =>
        rw [hold] at hr
        cases hr
        exact hk _ _ hold
    · exact hk id r hr

theorem Keyed.connRequest (hk : Keyed m) (request : IncomingMessage) (answers : Answers T) :
    Keyed (m.handleConnRequestPacket request answers).2.1 := by
  unfold handleConnRequestPacket createConnectionAcceptEntry
  split
  · exact hk
  split
  · exact hk
  split
  · exact hk
  split
  · exact hk
  rcases m.connectionMap.createConnection request.ipAddress request.port with ⟨_ | peerId, cm⟩
  · exact hk
  · refine Keyed.sent ?_ _ _ _ _
    exact hk

theorem Keyed.ack (hk : Keyed m) (request : IncomingMessage) (answers : Answers T) :
    Keyed (m.handleAckPacket request answers).2.1 := by
  unfold handleAckPacket
  split
  · exact hk
  split
  · unfold pendingConnAcceptComplete
    dsimp only
    split <;> exact hk.removed _
  · exact hk.removed _
  · exact hk.removed _
  · exact hk.removed _
  · exact hk

theorem Keyed.established (hk : Keyed m) (request : IncomingMessage) (answers : Answers T) :
    Keyed (m.handleEstablished request answers).2.1 := by
  unfold handleEstablished
  split <;> exact hk

variable [DecidableEq T]

theorem Keyed.requestTransport (hk : Keyed m) (requestor : C) (t : T) (ip port : Nat)
    (sent : Option Nat) : Keyed (m.requestTransport requestor t ip port sent).2.1 := by
  unfold ConnMux.requestTransport createConnectionRequestEntry
  rcases m.connectionMap.createConnection ip port with ⟨_ | peerId, cm⟩
  · exact hk
  · refine Keyed.sent ?_ _ _ _ _
    exact hk

theorem Keyed.connOffer (hk : Keyed m) (request : IncomingMessage) (answers : Answers T) :
    Keyed (m.handleConnOfferPacket request answers).2.1 := by
  unfold handleConnOfferPacket
  split
  · exact hk
  split
  · exact hk
  split
  · exact hk.removed _
  dsimp only
  split
  · exact hk.removed _
  unfold completeRequest
  dsimp only
  split
  · exact hk.removed _
  split <;> refine Keyed.sent ?_ _ _ _ _ <;> exact hk.removed _

theorem Keyed.connAccept (hk : Keyed m) (request : IncomingMessage) (answers : Answers T) :
    Keyed (m.handleConnAcceptPacket request answers).2.1 := by
  unfold handleConnAcceptPacket
  split
  · unfold checkAcceptAckRetry sendAck
    split
    · exact hk
    split
    · exact hk
    split <;> exact hk
  split
  · exact hk
  split
  · exact hk.removed _
  dsimp only
  split
  · exact hk.removed _
  split
  · exact hk.removed _
  · exact hk.removed _
  unfold completeAccept
  dsimp only
  split
  · exact hk.removed _
  split <;> exact hk.removed _

theorem Keyed.step (hk : Keyed m) (input : Input T C) : Keyed (m.step input).2.1 := by
  cases input with
  | requestTransport requestor t ip port sent => exact hk.requestTransport requestor t ip port sent
  | packet request answers =>
    unfold ConnMux.step processPacket
    dsimp only
    split
    · exact hk.connRequest request answers
    · exact hk.connOffer request answers
    · exact hk.connAccept request answers
    · exact hk.established request answers
    · exact hk.established request answers
    · exact hk.established request answers
    · exact hk.ack request answers
    all_goals exact hk
  | retriesExhausted ip port =>
    unfold ConnMux.step handleSendFailure
    dsimp only
    split <;> exact hk
  | removePendingConnection peerId => exact hk
  | removeConnection t => exact hk

end Keyed

end Alpine.ConnMux
