import Alpine.Protocol.SelfLocking

/-!
# The chains of the code as it is

Of a node whose packets are never reported as written no transport waits for an acknowledgement and
no request waits in a queue (`Quiet`), and every chain leaves it so. Neither chain in which a thread
would lock itself out can come about (`along_noSelfLock`).
-/

namespace Alpine.AlpineNode

open Lib Traced

variable {T C : Type}

structure Quiet (n : AlpineNode T C) : Prop where
  idle : n.process.Idle
  queue : ∀ t, (n.alpine t).pendingIndex = none

/-- A node with any multiplexor, and transports that start from any number. -/
theorem quiet_new (mux : ConnMux T C) (configured : Option Int) (requestIds : T → Nat) :
    Quiet ⟨mux, Process.new configured, fun t => ⟨requestIds t, none⟩⟩ :=
  ⟨Process.idle_new configured, fun _ => rfl⟩

variable [DecidableEq T] {n : AlpineNode T C}

/-! ## Transports -/

theorem Quiet.baseSendReliablePacket (hq : Quiet n) (t : T) (data : List UInt8) (o : SendOutcome) :
    (n.baseSendReliablePacket t data o).value.1 = false ∧
      Quiet (n.baseSendReliablePacket t data o).value.2 := by
  unfold AlpineNode.baseSendReliablePacket
  split
  · exact ⟨rfl, hq⟩
  · exact ⟨(n.process.sendReliablePacket_fails t data o).1,
      hq.idle.sendReliablePacket t data o, hq.queue⟩

theorem Quiet.checkPendingRequests (hq : Quiet n) (t : T) (o : SendOutcome) :
    n.checkPendingRequests t o = pure n := by
  unfold AlpineNode.checkPendingRequests
  rw [hq.queue t]
  exact ite_self _

theorem Quiet.sendReliableData (hq : Quiet n) (t : T) (data : List UInt8) (o : SendOutcome) :
    (n.sendReliableData t data o).value.1 = false ∧ Quiet (n.sendReliableData t data o).value.2 := by
  have hflag : n.pendingAck t = false := hq.idle.flag t
  obtain ⟨hstatus, hquiet⟩ := hq.baseSendReliablePacket t data o
  unfold AlpineNode.sendReliableData
  rw [if_pos hflag, value_bind]
  dsimp only
  rw [if_pos hstatus]
  exact ⟨rfl, hquiet⟩

theorem Quiet.acknowledgeTransfer (hq : Quiet n) (t : T) (requestId : Nat) (o : SendOutcome) :
    n.acknowledgeTransfer t requestId o = pure n := if_pos (.inl (hq.idle.flag t))

/-! ## The timer -/

theorem Quiet.timerPass (hq : Quiet n) (pass : TimerPass) : Quiet (n.timerPass pass).value := by
  have hretry := hq.idle.retry pass.now pass.entry pass.draw
  unfold AlpineNode.timerPass
  rcases n.process.ackMap.retry_cases pass.now pass.entry pass.draw with ⟨-, hev⟩ |
      ⟨record, hf, -, hev⟩ |
    ⟨record, -, -, hev⟩
  · simp only [hev]
    simp only [Process.retry, hev] at hretry
    exact ⟨hretry.1, hq.queue⟩
  · have hnone := hq.idle.table _ record hf
    simp only [hev, hnone]
    simp only [Process.retry, hev, hnone, Process.notifyFailure] at hretry
    exact ⟨hretry.1, hq.queue⟩
  · simp only [hev]
    simp only [Process.retry, hev, Process.notifyFailure] at hretry
    exact ⟨hretry.1, hq.queue⟩

omit [DecidableEq T] in
theorem Quiet.not_startsNext (hq : Quiet n) (pass : TimerPass) : ¬ StartsNext n pass := by
  rintro ⟨record, t, -, -, -, hsent⟩
  rw [headSent_none _ _ _ (hq.queue t)] at hsent
  cases hsent

theorem Quiet.processTimers (hq : Quiet n) (passes : List TimerPass) :
    Quiet (n.processTimers passes).value ∧ PassesSpared n passes := by
  induction passes generalizing n with
  | nil => exact ⟨hq, trivial⟩
  | cons pass passes ih =>
    obtain ⟨hrest, hspared⟩ := ih (hq.timerPass pass)
    exact ⟨hrest, hq.not_startsNext pass, hspared⟩

/-! ## Queries -/

theorem Quiet.stackSendReliablePacket (hq : Quiet n) (a : Answer T) :
    (n.stackSendReliablePacket a).value.1 = false ∧ Quiet (n.stackSendReliablePacket a).value.2 := by
  unfold AlpineNode.stackSendReliablePacket
  rw [value_bind, value_underLock, value_pure]
  split
  · exact ⟨rfl, hq⟩
  split
  · exact ⟨rfl, hq⟩
  · exact hq.sendReliableData _ _ _

theorem Quiet.acknowledgePending (hq : Quiet n) (r : Reply T) :
    (n.acknowledgePending r).value = n := by
  unfold AlpineNode.acknowledgePending
  split
  · rfl
  · unfold stackAcknowledgeTransfer
    rw [value_bind, value_underLock, value_pure]
    split
    · rfl
    · rw [hq.acknowledgeTransfer]
      rfl

/-- No reply is answered. -/
theorem Quiet.not_answered (hq : Quiet n) (r : Reply T) : n.answered r = false := by
  unfold answered
  rw [hq.acknowledgePending]
  exact (hq.stackSendReliablePacket _).1

theorem Quiet.handleQueryOffer (hq : Quiet n) (k : Standing) (a : Answer T) :
    Quiet (n.handleQueryOffer k a).value := by
  unfold AlpineNode.handleQueryOffer
  rw [value_underLock]
  split
  · exact hq
  split
  · exact hq
  rw [value_underLock, value_bind]
  split
  · exact hq
  · exact (hq.stackSendReliablePacket a).2

theorem Quiet.handleQueryReply (hq : Quiet n) (k : Standing) (r : Reply T) :
    Quiet (n.handleQueryReply k r).value := by
  unfold AlpineNode.handleQueryReply
  rw [value_underLock]
  split
  · exact hq
  split
  · exact hq
  rw [value_bind]
  split
  · exact hq
  · unfold answerReply
    obtain ⟨hstatus, hquiet⟩ := hq.stackSendReliablePacket r.toAnswer
    rw [value_bind, value_bind, hq.acknowledgePending]
    dsimp only
    rw [if_pos hstatus]
    exact hquiet

theorem Quiet.handleData (hq : Quiet n) (k : Standing) (payload : Payload T) :
    Quiet (n.handleData k payload).value := by
  cases payload with
  | dropped | queryDiscover | queryRequest => exact hq
  | queryOffer answer => exact hq.handleQueryOffer k answer
  | queryReply reply => exact hq.handleQueryReply k reply

/-! ## The multiplexor -/

omit [DecidableEq T] in
theorem Quiet.setMux (hq : Quiet n) (mux : ConnMux T C) : Quiet { n with mux } := ⟨hq.idle, hq.queue⟩

theorem Quiet.setPeerLocation (hq : Quiet n) (t : T) (ipAddress port : Nat) :
    Quiet { n with process := n.process.setPeerLocation t ipAddress port } :=
  ⟨hq.idle.setPeerLocation t ipAddress port, hq.queue⟩

omit [DecidableEq T] in
/-- Nothing of the handshake goes out. -/
theorem sendReliable_value (n : AlpineNode T C) (packet : ConnPacket) (send : SendOutcome) :
    (n.sendReliable packet send).value = (false, n) := by
  unfold sendReliable
  rw [value_bind, UdpTransport.value_sendReliablePacket, SendOutcome.sent_eq_false]
  rfl

omit [DecidableEq T] in
theorem sendPacket_value (packet : ConnPacket) (send : SendOutcome) :
    (UdpTransport.sendPacket packet send).value = false := by
  unfold UdpTransport.sendPacket
  rw [value_bind, SendOutcome.written_eq_false]
  split <;> rfl

omit [DecidableEq T] in
theorem Quiet.reliableRequestComplete (hq : Quiet n) (id now : Nat) :
    Quiet (n.reliableRequestComplete id now).value.2 := ⟨hq.idle.remove now id, hq.queue⟩

section Mux

variable (i : Incoming T)

omit [DecidableEq T] in
theorem Quiet.removePendingAckRecord (hq : Quiet n) (record : PendingAckRecord) :
    Quiet (n.removePendingAckRecord i record).value :=
  (hq.setMux _).reliableRequestComplete record.requestId i.send.now

theorem Quiet.requestTransport (hq : Quiet n) (requestor : C) (transport : T) (ipAddress port : Nat)
    (send : SendOutcome) :
    Quiet (n.requestTransport requestor transport ipAddress port send).value := by
  have hentry : ∀ {n : AlpineNode T C}, Quiet n →
      Quiet (n.createConnectionRequestEntry requestor transport ipAddress port).value.2 := by
    intro n hq
    unfold createConnectionRequestEntry
    rw [value_bind]
    dsimp only
    split
    · exact hq
    · exact hq.setMux _
  have hlocated := hentry (hq.setPeerLocation transport ipAddress port)
  unfold AlpineNode.requestTransport
  rw [value_bind]
  dsimp only
  split
  · exact hlocated
  · rw [value_bind, sendReliable_value]
    exact hlocated

omit [DecidableEq T] in
theorem Quiet.createConnectionAcceptEntry (hq : Quiet n) (packet : DtcpConnPacket Empty) :
    Quiet (n.createConnectionAcceptEntry i packet).value.2 := by
  unfold AlpineNode.createConnectionAcceptEntry
  rw [value_bind]
  dsimp only
  split
  · exact hq
  · exact hq.setMux _

omit [DecidableEq T] in
theorem Quiet.handleConnRequestPacket (hq : Quiet n) : Quiet (n.handleConnRequestPacket i).value := by
  unfold AlpineNode.handleConnRequestPacket
  rw [value_bind]
  split
  · exact hq
  rw [value_bind]
  split
  · exact hq
  split
  · exact hq
  split
  · exact hq
  rw [value_bind]
  dsimp only
  have hentry := hq.createConnectionAcceptEntry i
  split
  · exact hentry _
  · rw [value_bind, sendReliable_value]
    exact hentry _

theorem Quiet.completeRequest (hq : Quiet n) (peerId myId : Nat) (record : ConnRequestRecord T C) :
    Quiet (n.completeRequest i peerId myId record).value := by
  unfold AlpineNode.completeRequest
  dsimp only
  rw [value_bind, value_bind]
  split
  · exact hq.setMux _
  · rw [value_bind, sendReliable_value]
    exact hq.setMux _

theorem Quiet.handleConnOfferPacket (hq : Quiet n) : Quiet (n.handleConnOfferPacket i).value := by
  unfold AlpineNode.handleConnOfferPacket
  rw [value_bind]
  split
  · exact hq
  split
  · exact hq
  rw [value_bind]
  have hremoved := hq.removePendingAckRecord i
  split
  · exact hremoved _
  rw [value_bind]
  split
  · exact hremoved _
  · exact (hremoved _).completeRequest i _ _ _

theorem Quiet.completeAccept (hq : Quiet n) (peerId record : Nat) (transport : T) :
    Quiet (n.completeAccept i peerId record transport).value := by
  have hlocated := hq.setPeerLocation transport i.request.ipAddress i.request.port
  unfold AlpineNode.completeAccept
  dsimp only
  rw [value_bind]
  split
  · exact hlocated.setMux _
  · rw [value_bind, value_bind, sendPacket_value]
    exact hlocated.setMux _

theorem Quiet.handleConnAcceptPacket (hq : Quiet n) : Quiet (n.handleConnAcceptPacket i).value := by
  have hremoved := hq.removePendingAckRecord i
  unfold AlpineNode.handleConnAcceptPacket
  rw [value_bind]
  split
  · unfold checkAcceptAckRetry
    split
    · exact hq
    rw [value_bind]
    split <;> exact hq
  split
  · exact hq
  rw [value_bind]
  split
  · exact hremoved _
  rw [value_bind]
  split
  · exact hremoved _
  · exact (hremoved _).setMux _
  · exact (hremoved _).setMux _
  · exact (hremoved _).completeAccept i _ _ _

omit [DecidableEq T] in
theorem Quiet.handleAckPacket (hq : Quiet n) : Quiet (n.handleAckPacket i).value := by
  have hremoved := hq.removePendingAckRecord i
  unfold AlpineNode.handleAckPacket
  rw [value_bind]
  split
  · exact hq
  split
  · unfold pendingConnAcceptComplete
    dsimp only
    rw [value_bind, value_bind]
    split
    · exact (hremoved _).setMux _
    · exact (hremoved _).setMux _
  · exact hremoved _
  · exact hremoved _
  · exact hremoved _
  · exact hq

omit [DecidableEq T] in
theorem Quiet.withTransport (hq : Quiet n)
    {use : DtcpConnPacket Empty → T → Traced Lock (AlpineNode T C)}
    (huse : ∀ packet t, Quiet (use packet t).value) : Quiet (n.withTransport i use).value := by
  unfold AlpineNode.withTransport
  split
  · exact hq
  rw [value_bind]
  split
  · exact hq
  · exact hq
  · exact huse _ _

theorem Quiet.setRecvSequenceNum (hq : Quiet n) (t : T) (number : Nat) :
    Quiet { n with process := n.process.setRecvSequenceNum t number } :=
  ⟨hq.idle.setRecvSequenceNum t number, hq.queue⟩

theorem Quiet.reliableData (hq : Quiet n) (packet : DtcpConnPacket Empty) (t : T) :
    Quiet (n.reliableData i packet t).value := by
  unfold AlpineNode.reliableData
  split
  · exact hq
  · rw [value_bind]
    exact (hq.setRecvSequenceNum t packet.sequenceNum).handleData _ _

theorem Quiet.dataAck (hq : Quiet n) (t : T) : n.dataAck i t = pure n := if_pos (hq.idle.flag t)

theorem Quiet.processPacket (hq : Quiet n) : Quiet (n.processPacket i).value := by
  unfold AlpineNode.processPacket
  split
  · exact hq.handleConnRequestPacket i
  · exact hq.handleConnOfferPacket i
  · exact hq.handleConnAcceptPacket i
  · exact hq.withTransport i fun _ _ => hq.handleData _ _
  · exact hq.withTransport i fun packet t => hq.reliableData i packet t
  · refine hq.withTransport i fun _ t => ?_
    rw [hq.dataAck]
    exact hq
  · exact hq.handleAckPacket i
  · exact hq
  · exact hq
  · exact hq

/-- No callback asks the manager. -/
theorem Quiet.not_asks (hq : Quiet n) : ¬ Asks n i := by
  rintro ⟨n', hover, r, -, hcb⟩
  have hq' : Quiet n' := by
    cases hover with
    | data => exact hq
    | reliable => exact hq.setRecvSequenceNum _ _
  have hanswered := hcb.answered
  rw [hq'.not_answered] at hanswered
  cases hanswered

end Mux

/-! ## Runs -/

theorem Quiet.runChain (hq : Quiet n) (chain : Chain T C) :
    Quiet (n.runChain chain).value ∧ Spared n chain := by
  cases chain with
  | timer passes => exact hq.processTimers passes
  | packet incoming => exact ⟨hq.processPacket incoming, hq.not_asks incoming⟩
  | requestTransport requestor transport ipAddress port send =>
    exact ⟨hq.requestTransport requestor transport ipAddress port send, trivial⟩
  | sendReliableData t data send => exact ⟨(hq.sendReliableData t data send).2, trivial⟩
  | acknowledgeTransfer t requestId send =>
    refine ⟨?_, trivial⟩
    simp only [AlpineNode.runChain, hq.acknowledgeTransfer]
    exact hq

/-- In every run of chains no thread acquires a lock that it holds. -/
theorem along_noSelfLock (mux : ConnMux T C) (configured : Option Int) (requestIds : T → Nat)
    (run : List (Chain T C)) :
    chains.Along (fun _ n chain => ¬ LocksItselfOut n chain) []
      ⟨mux, Process.new configured, fun t => ⟨requestIds t, none⟩⟩ run :=
  (noSelfLock_iff_spared _ run).mpr
    (Machine.run_along (I := fun _ n => Quiet n) (fun _ _ chain hq => (hq.runChain chain).1)
      (fun _ _ chain hq => (hq.runChain chain).2) run (quiet_new mux configured requestIds))

end Alpine.AlpineNode
