import Alpine.Dtcp.MuxSteps

/-!
# Safety of the handshake

When the acceptor gets a transport, the accept record it came from should have been allocated for
the address the packet came from, and no index should hold the record any longer; and a packet
that names a peer id of another address should change nothing (`HandshakeSafe`).
`handleConnAcceptPacket` does not compare the address of the record with that of the packet, nor
does `handleConnOfferPacket`, and the accept handler erases the record from an index it is not in
before it deletes it. So a run is safe exactly if it has no step in which one of the two handlers
goes ahead with a packet of another address, or the accept handler completes a handshake
(`along_handshakeSafe_iff`).
-/

namespace Alpine

open Lib
open ConnectionMap (Created WellIndexed)

/-- The peer id a handshake packet names. -/
def IncomingMessage.named (request : IncomingMessage) : Option Nat :=
  match request.packetType with
  | .connOffer | .connAccept => request.parse.map (·.peerId)
  | _ => none

namespace ConnMux

variable {T C : Type}

/-- The five indexes of what is pending. -/
def pendingIndexes (m : ConnMux T C) :=
  (m.connectionMap.pendingIndex, m.connRequestIndex, m.pendingAcceptIndex, m.pendingTransportIndex,
    m.pendingAckIndex)

/-- The packet names a peer id that was created for another address than it comes from. -/
def Misplaced (h : List (MuxEvent T C)) (request : IncomingMessage) : Prop :=
  ∃ peerId address, request.named = some peerId ∧ .attempt peerId address ∈ h ∧
    address ≠ request.source

/-- The source of the packet has yet to answer a packet of type `msgType`. -/
def Waiting (m : ConnMux T C) (request : IncomingMessage) (msgType : PacketType) : Prop :=
  ∃ record, m.getPendingAckRecord request.id = some record ∧ record.msgType = msgType

/-- The accept packet finds its record and a pending connection, and the acceptor makes a
transport. -/
def Completes (m : ConnMux T C) (request : IncomingMessage) (answers : Answers T) : Prop :=
  ∃ packet transport, request.parse = some packet ∧
    (m.pendingAcceptIndex.find packet.peerId).isSome ∧
    m.connectionMap.pendingAccept packet.peerId = true ∧
    answers.created = .transport transport

section Property

variable [DecidableEq T]

structure HandshakeSafe (h : List (MuxEvent T C)) (m : ConnMux T C) (input : Input T C) :
    Prop where
  /-- A transport handed over comes from a record of its own address, used up in this step. -/
  handedOver : ∀ peerId address transport,
    .acceptorReceives peerId address transport ∈ (m.step input).2.2 →
    ∃ record, .allocated peerId address record ∈ h ∧ .deleted record ∈ (m.step input).2.2 ∧
      .deleted record ∉ h
  /-- No index holds a deleted record. -/
  noDangling : ∀ record, .deleted record ∈ h ++ (m.step input).2.2 →
    ∀ peerId, (m.step input).2.1.pendingAcceptIndex.find peerId ≠ some record
  /-- A packet of another address creates no transport and leaves what is pending alone. -/
  wrongAddress : ∀ request answers, input = .packet request answers → Misplaced h request →
    .createdTransport ∉ (m.step input).2.2 ∧ (m.step input).2.1.pendingIndexes = m.pendingIndexes

end Property

/-- A step that neither goes ahead with a packet of another address nor completes a handshake. -/
def StepOk (h : List (MuxEvent T C)) (m : ConnMux T C) : Input T C → Prop
  | .packet request answers =>
    (request.packetType = .connOffer → Waiting m request .connRequest → ¬ Misplaced h request) ∧
    (request.packetType = .connAccept → Waiting m request .connOffer →
      ¬ Misplaced h request ∧ ¬ Completes m request answers)
  | _ => True

/-! ## Events of the handlers -/

/-- No transport is made or handed over and no record deleted. -/
def MuxEvent.quiet : MuxEvent T C → Bool
  | .deleted _ | .createdTransport | .acceptorReceives _ _ _ => false
  | _ => true

def Quiet (events : List (MuxEvent T C)) : Prop := ∀ e ∈ events, MuxEvent.quiet e = true

theorem quiet_nil : Quiet ([] : List (MuxEvent T C)) := by simp [Quiet]

theorem quiet_append {es fs : List (MuxEvent T C)} (he : Quiet es) (hf : Quiet fs) :
    Quiet (es ++ fs) := by
  intro e hmem
  rcases List.mem_append.mp hmem with h | h
  · exact he e h
  · exact hf e h

theorem Quiet.not_mem {events : List (MuxEvent T C)} (h : Quiet events) {e : MuxEvent T C}
    (he : MuxEvent.quiet e = false) : e ∉ events := by
  intro hmem
  rw [h e hmem] at he
  cases he

section Quiet

variable {m : ConnMux T C}

theorem quiet_sendReliable (msgType : PacketType) (ip port : Nat) (sent : Option Nat) :
    Quiet (m.sendReliable msgType ip port sent).2.2 := by
  cases sent <;> simp [Quiet, sendReliable, MuxEvent.quiet]

theorem quiet_removePendingConnection (peerId : Nat) :
    Quiet (m.removePendingConnection peerId).2 := by
  unfold removePendingConnection
  cases m.connectionMap.pendingIndex.find peerId <;> simp [Quiet, MuxEvent.quiet]

theorem quiet_readAcceptRecord (record : Nat) : Quiet (m.readAcceptRecord record).2 := by
  unfold readAcceptRecord
  split <;> simp [Quiet, MuxEvent.quiet]

theorem quiet_connRequest (request : IncomingMessage) (answers : Answers T) :
    Quiet (m.handleConnRequestPacket request answers).2.2 := by
  unfold handleConnRequestPacket createConnectionAcceptEntry
  split
  · exact quiet_nil
  split
  · exact quiet_nil
  split
  · exact quiet_nil
  split
  · exact quiet_nil
  rcases m.connectionMap.createConnection request.ipAddress request.port with ⟨_ | peerId, cm⟩
  · exact quiet_nil
  · refine quiet_append ?_ (quiet_sendReliable _ _ _ _)
    simp [Quiet, MuxEvent.quiet]

theorem quiet_ack (request : IncomingMessage) (answers : Answers T) :
    Quiet (m.handleAckPacket request answers).2.2 := by
  unfold handleAckPacket
  split
  · exact quiet_nil
  split
  · unfold pendingConnAcceptComplete
    dsimp only
    split
    · exact quiet_nil
    · simp [Quiet, MuxEvent.quiet]
  all_goals exact quiet_nil

theorem quiet_established (request : IncomingMessage) (answers : Answers T) :
    Quiet (m.handleEstablished request answers).2.2 := by
  unfold handleEstablished
  split <;> simp [Quiet, MuxEvent.quiet]

variable [DecidableEq T]

theorem quiet_requestTransport (requestor : C) (t : T) (ip port : Nat) (sent : Option Nat) :
    Quiet (m.requestTransport requestor t ip port sent).2.2 := by
  unfold requestTransport createConnectionRequestEntry
  rcases m.connectionMap.createConnection ip port with ⟨_ | peerId, cm⟩
  · exact quiet_nil
  · refine quiet_append ?_ (quiet_sendReliable _ _ _ _)
    simp [Quiet, MuxEvent.quiet]

theorem quiet_connOffer (request : IncomingMessage) (answers : Answers T) :
    Quiet (m.handleConnOfferPacket request answers).2.2 := by
  unfold handleConnOfferPacket
  split
  · exact quiet_nil
  split
  · exact quiet_nil
  split
  · exact quiet_nil
  dsimp only
  split
  · exact quiet_nil
  unfold completeRequest
  dsimp only
  split
  · exact quiet_nil
  split <;> exact quiet_sendReliable _ _ _ _

/-- Only an accept packet makes a transport or deletes a record. -/
theorem quiet_step {input : Input T C}
    (hnot : ∀ request answers, input = .packet request answers →
      request.packetType ≠ .connAccept) : Quiet (m.step input).2.2 := by
  cases input with
  | requestTransport requestor t ip port sent =>
    exact quiet_requestTransport requestor t ip port sent
  | packet request answers =>
    have hne := hnot request answers rfl
    unfold step processPacket
    dsimp only
    split
    · exact quiet_connRequest request answers
    · exact quiet_connOffer request answers
    · next h => exact absurd h hne
    · exact quiet_established request answers
    · exact quiet_established request answers
    · exact quiet_established request answers
    · exact quiet_ack request answers
    all_goals exact quiet_nil
  | retriesExhausted ip port =>
    unfold step handleSendFailure
    dsimp only
    split <;> simp [Quiet, MuxEvent.quiet]
  | removePendingConnection peerId => exact quiet_removePendingConnection peerId
  | removeConnection t =>
    unfold step removeConnection
    cases m.transports.find t <;> simp [Quiet, MuxEvent.quiet]

end Quiet

/-! ## The two handlers that trust the packet -/

section Handlers

variable {m : ConnMux T C} {request : IncomingMessage} {answers : Answers T}

theorem sendReliable_find {msgType : PacketType} {ip port : Nat} {sent : Option Nat} {id : Nat}
    {r : PendingAckRecord}
    (hr : (m.sendReliable msgType ip port sent).2.1.pendingAckIndex.find id = some r) :
    m.pendingAckIndex.find id = some r ∨ r.msgType = msgType := by
  cases sent with
  | none => exact .inl hr
  | some requestId =>
    simp only [sendReliable, UMap.find_emplace] at hr
    split at hr
    · next heq =>
      subst heq
      cases hold : m.pendingAckIndex.find (ipPortToNetId ip port) with
      | none =>
        rw [hold] at hr
        cases hr
        exact .inr rfl
      | some old =>
        rw [hold] at hr
        exact .inl hr
    · exact .inl hr

variable [DecidableEq T]

/-- Without an outstanding request the offer handler does nothing. -/
theorem connOffer_idle (hw : ¬ Waiting m request .connRequest) :
    m.handleConnOfferPacket request answers = (true, m, []) := by
  unfold handleConnOfferPacket
  cases hrec : m.getPendingAckRecord request.id with
  | none => rfl
  | some record =>
    have hne : record.msgType ≠ .connRequest := fun heq => hw ⟨record, hrec, heq⟩
    simp [hne]

/-- With one, it uses the request's record up: if the source has a record afterwards, it is
another one. -/
theorem connOffer_consumes (hk : Keyed m) (hw : Waiting m request .connRequest) :
    (m.handleConnOfferPacket request answers).2.1.pendingAckIndex ≠ m.pendingAckIndex := by
  obtain ⟨record, hrec, htype⟩ := hw
  have hid := hk _ _ hrec
  suffices hs : ∀ r, (m.handleConnOfferPacket request answers).2.1.pendingAckIndex.find request.id =
      some r → r.msgType = .connAccept by
    intro heq
    have := hs record (by rw [heq]; exact hrec)
    rw [htype] at this
    cases this
  have herased : ∀ r, (m.removePendingAckRecord record).pendingAckIndex.find request.id = some r →
      r.msgType = .connAccept := by
    intro r hr
    simp [removePendingAckRecord, hid] at hr
  intro r
  unfold handleConnOfferPacket
  simp only [hrec, htype, ne_eq, not_true_eq_false, if_false]
  split
  · exact herased r
  split
  · exact herased r
  unfold completeRequest
  dsimp only
  split
  · exact herased r
  split
  all_goals
    intro hr
    rcases sendReliable_find hr with hr | hr
    · exact herased r hr
    · exact hr

/-- Without an outstanding offer the accept handler at most sends an ack. -/
theorem connAccept_idle (answers : Answers T) (hw : ¬ Waiting m request .connOffer) :
    (m.handleConnAcceptPacket request answers).2.1 = m ∧
      Quiet (m.handleConnAcceptPacket request answers).2.2 := by
  unfold handleConnAcceptPacket
  cases hrec : m.getPendingAckRecord request.id with
  | none =>
    simp only [checkAcceptAckRetry, sendAck]
    split
    · exact ⟨rfl, quiet_nil⟩
    split
    · exact ⟨rfl, quiet_nil⟩
    split
    · exact ⟨rfl, by simp [Quiet, MuxEvent.quiet]⟩
    · exact ⟨rfl, quiet_nil⟩
  | some record =>
    have hne : record.msgType ≠ .connOffer := fun heq => hw ⟨record, hrec, heq⟩
    simp only [hne, ne_eq, not_false_eq_true, if_true, true_and]
    exact quiet_nil

theorem connAccept_consumes (hk : Keyed m) (hw : Waiting m request .connOffer) :
    (m.handleConnAcceptPacket request answers).2.1.pendingAckIndex ≠ m.pendingAckIndex := by
  obtain ⟨record, hrec, htype⟩ := hw
  have hid := hk _ _ hrec
  suffices hs : (m.handleConnAcceptPacket request answers).2.1.pendingAckIndex =
      (m.removePendingAckRecord record).pendingAckIndex by
    intro heq
    have hnone : (m.removePendingAckRecord record).pendingAckIndex.find request.id = none := by
      simp [removePendingAckRecord, hid]
    rw [← hs, heq] at hnone
    rw [getPendingAckRecord, hnone] at hrec
    cases hrec
  unfold handleConnAcceptPacket
  simp only [hrec, htype, ne_eq, not_true_eq_false, if_false]
  split
  · rfl
  split
  · rfl
  split
  · rfl
  · rfl
  unfold completeAccept
  dsimp only
  split
  · rfl
  split <;> rfl

/-- A handshake that is not completed deletes nothing and hands nothing over. -/
theorem connAccept_not_completes (hc : ¬ Completes m request answers) :
    ∀ e ∈ (m.handleConnAcceptPacket request answers).2.2,
      MuxEvent.quiet e = true ∨ e = .createdTransport := by
  have hquiet : ∀ {events : List (MuxEvent T C)}, Quiet events →
      ∀ e ∈ events, MuxEvent.quiet e = true ∨ e = .createdTransport :=
    fun h e he => .inl (h e he)
  by_cases hw : Waiting m request .connOffer
  swap
  · exact hquiet (connAccept_idle answers hw).2
  obtain ⟨ackRecord, hrec, htype⟩ := hw
  unfold handleConnAcceptPacket
  simp only [hrec, htype, ne_eq, not_true_eq_false, if_false]
  split
  · exact hquiet quiet_nil
  next packet hparse =>
  split
  · exact hquiet quiet_nil
  next record hrecord =>
  split
  · exact hquiet (quiet_removePendingConnection _)
  · intro e he
    rcases List.mem_cons.mp he with rfl | he
    · exact .inr rfl
    · exact .inl (quiet_removePendingConnection _ e he)
  · next transport hcreated =>
    have hpend : m.connectionMap.pendingAccept packet.peerId ≠ true := by
      intro hp
      refine hc ⟨packet, transport, hparse, ?_, hp, hcreated⟩
      simpa [removePendingAckRecord] using congrArg Option.isSome hrecord
    intro e he
    simp only [completeAccept, setTransport, removePendingAckRecord,
      ConnectionMap.indexConnection_not_pending hpend, if_true] at he
    rcases List.mem_append.mp he with he | he
    · rcases List.mem_cons.mp he with rfl | he
      · exact .inr rfl
      · exact .inl (quiet_readAcceptRecord _ e he)
    · exact .inl (quiet_removePendingConnection _ e he)

/-- A completed one deletes the record and leaves it indexed. -/
theorem connAccept_completes {h : List Created} (hm : WellIndexed h m.connectionMap)
    (hw : Waiting m request .connOffer) (hc : Completes m request answers) :
    ∃ record peerId, .deleted record ∈ (m.handleConnAcceptPacket request answers).2.2 ∧
      (m.handleConnAcceptPacket request answers).2.1.pendingAcceptIndex.find peerId =
        some record := by
  obtain ⟨ackRecord, hrec, htype⟩ := hw
  obtain ⟨packet, transport, hparse, hfound, hpend, hcreated⟩ := hc
  obtain ⟨record, hrecord⟩ := Option.isSome_iff_exists.mp hfound
  have hindexed := hm.indexConnection_pending hpend transport
  refine ⟨record, packet.peerId, ?_, ?_⟩
  · unfold handleConnAcceptPacket
    simp only [hrec, htype, ne_eq, not_true_eq_false, if_false, hparse, removePendingAckRecord,
      hrecord, hcreated, completeAccept, setTransport, hindexed, Bool.true_eq_false]
    split <;> simp
  · unfold handleConnAcceptPacket
    simp only [hrec, htype, ne_eq, not_true_eq_false, if_false, hparse, removePendingAckRecord,
      hrecord, hcreated, completeAccept, setTransport, hindexed, Bool.true_eq_false]
    split <;> exact hrecord

end Handlers

/-! ## Runs -/

section Runs

/-- A packet that names a peer id is an offer or an accept. -/
theorem Misplaced.type {h : List (MuxEvent T C)} {request : IncomingMessage}
    (hmis : Misplaced h request) :
    request.packetType = .connOffer ∨ request.packetType = .connAccept := by
  obtain ⟨peerId, address, hnamed, -⟩ := hmis
  unfold IncomingMessage.named at hnamed
  split at hnamed
  · next ht => exact .inl ht
  · next ht => exact .inr ht
  · cases hnamed

/-- What holds along a safe run: nothing has been deleted yet. -/
structure Intact (h : List (MuxEvent T C)) (m : ConnMux T C) : Prop where
  indexed : WellIndexed (attempts h) m.connectionMap
  keyed : Keyed m
  undeleted : ∀ record, .deleted record ∉ h

theorem intact_new (now : Nat) : Intact [] (new now : ConnMux T C) :=
  ⟨ConnectionMap.wellIndexed_new now, by simp [Keyed, new], by simp⟩

variable [DecidableEq T]

theorem step_connOffer {m : ConnMux T C} {request : IncomingMessage} {answers : Answers T}
    (h : request.packetType = .connOffer) :
    m.step (.packet request answers) = m.handleConnOfferPacket request answers := by
  simp only [step, processPacket, h]

theorem step_connAccept {m : ConnMux T C} {request : IncomingMessage} {answers : Answers T}
    (h : request.packetType = .connAccept) :
    m.step (.packet request answers) = m.handleConnAcceptPacket request answers := by
  simp only [step, processPacket, h]

variable {h : List (MuxEvent T C)} {m : ConnMux T C} {input : Input T C}

/-- A good step makes a transport at most. -/
theorem StepOk.events (hok : StepOk h m input) :
    ∀ e ∈ (m.step input).2.2, MuxEvent.quiet e = true ∨ e = .createdTransport := by
  by_cases ht : ∃ request answers, input = .packet request answers ∧
      request.packetType = .connAccept
  · obtain ⟨request, answers, rfl, ht⟩ := ht
    rw [step_connAccept ht]
    by_cases hw : Waiting m request .connOffer
    · exact connAccept_not_completes (hok.2 ht hw).2
    · exact fun e he => .inl ((connAccept_idle answers hw).2 e he)
  · have hquiet : Quiet (m.step input).2.2 := by
      apply quiet_step
      intro request answers heq hta
      exact ht ⟨request, answers, heq, hta⟩
    exact fun e he => .inl (hquiet e he)

theorem StepOk.not_deleted (hok : StepOk h m input) (record : Nat) :
    .deleted record ∉ (m.step input).2.2 := by
  intro hmem
  rcases hok.events _ hmem with hq | hq <;> cases hq

theorem Intact.step (hi : Intact h m) (hok : StepOk h m input) :
    Intact (h ++ (m.step input).2.2) (m.step input).2.1 := by
  refine ⟨(drives_step m input).wellIndexed hi.indexed, hi.keyed.step input, ?_⟩
  intro record hmem
  rcases List.mem_append.mp hmem with hmem | hmem
  · exact hi.undeleted record hmem
  · exact hok.not_deleted record hmem

theorem Intact.safe_of_ok (hi : Intact h m) (hok : StepOk h m input) :
    HandshakeSafe h m input := by
  constructor
  · intro peerId address transport hmem
    rcases hok.events _ hmem with hq | hq <;> cases hq
  · intro record hmem
    rcases List.mem_append.mp hmem with hmem | hmem
    · exact absurd hmem (hi.undeleted record)
    · exact absurd hmem (hok.not_deleted record)
  · intro request answers heq hmis
    subst heq
    -- Whoever sends a misplaced packet is not being waited for, so nothing happens.
    rcases hmis.type with ht | ht
    · rw [step_connOffer ht, connOffer_idle (fun hw => hok.1 ht hw hmis)]
      exact ⟨by simp, rfl⟩
    · obtain ⟨hsame, hquiet⟩ := connAccept_idle answers
        (fun hw => (hok.2 ht hw).1 hmis)
      rw [step_connAccept ht]
      exact ⟨hquiet.not_mem rfl, by rw [hsame]⟩

theorem Intact.ok_of_safe (hi : Intact h m) (hs : HandshakeSafe h m input) : StepOk h m input := by
  cases input with
  | packet request answers =>
    refine ⟨fun ht hw hmis => ?_, fun ht hw => ⟨fun hmis => ?_, fun hc => ?_⟩⟩
    · obtain ⟨-, hsame⟩ := hs.wrongAddress request answers rfl hmis
      rw [step_connOffer ht] at hsame
      exact connOffer_consumes hi.keyed hw (congrArg (·.2.2.2.2) hsame)
    · obtain ⟨-, hsame⟩ := hs.wrongAddress request answers rfl hmis
      rw [step_connAccept ht] at hsame
      exact connAccept_consumes hi.keyed hw (congrArg (·.2.2.2.2) hsame)
    · obtain ⟨record, peerId, hdel, hfind⟩ := connAccept_completes hi.indexed hw hc
      rw [← step_connAccept ht] at hdel hfind
      exact hs.noDangling record (List.mem_append_right _ hdel) peerId hfind
  | _ => trivial

/-- A run of the multiplexor is safe exactly if each of its steps is a good one. -/
theorem along_handshakeSafe_iff (now : Nat) (inputs : List (Input T C)) :
    machine.Along HandshakeSafe [] (new now) inputs ↔ machine.Along StepOk [] (new now) inputs :=
  Machine.along_congr (M := machine) (I := Intact) (fun _ _ _ hi hok => hi.step hok)
    (fun _ _ _ hi => ⟨hi.ok_of_safe, hi.safe_of_ok⟩) (intact_new now)

end Runs

/-! ## Two strangers -/

/-- A request from port 1 of host 9, one from port 2, and then an accept from port 2 that names
the peer id of the first. -/
def takeover : List (Input Bool Unit) :=
  let answers : Answers Bool := ⟨true, some 5, true, .transport true, true⟩
  [.packet ⟨9, 1, .connRequest, DataBuffer.ofData (putLong 70)⟩ answers,
    .packet ⟨9, 2, .connRequest, DataBuffer.ofData (putLong 80)⟩ answers,
    .packet ⟨9, 2, .connAccept, DataBuffer.ofData (putLong 1000)⟩ answers]

/-- The transport made for the first one's id goes to the acceptor with the second one's address,
and the record stays in the index after it is deleted. -/
theorem takeover_not_handshakeSafe :
    ¬ machine.Along HandshakeSafe [] (new 1000) takeover ∧
      .acceptorReceives 1000 ⟨9, 2⟩ true ∈ (machine.run (new 1000) takeover).2 ∧
      .deleted 0 ∈ (machine.run (new 1000) takeover).2 ∧
      (machine.run (new 1000) takeover).1.pendingAcceptIndex.find 1000 = some 0 := by
  refine ⟨?_, by decide, by decide, by decide⟩
  rintro ⟨-, -, hs, -⟩
  exact hs.noDangling 0 (by decide) 1000 (by decide)

end ConnMux

end Alpine
