import Alpine.Dtcp.ConnTransport

/-!
# One outstanding request for each transport

The flag of a transport, its request id and the record in the table are three places that say the
same thing: the transport waits for an acknowledgement (`OneOutstanding`). With a writer that can
succeed a run keeps them in agreement exactly if `acknowledgeTransfer` is never called while a
request is pending (`along_oneOutstanding_iff`): the transport clears its flag and then asks the
multiplexor, which looks at the flag and declines, so the record stays. The one other way to lose
the agreement is a request id that comes round while its first bearer is still in the table. With
the writer of the code no request is ever pending, and every run keeps it (`along_oneOutstanding`).
-/

namespace Alpine.Process

open Lib

variable {T : Type}

section Property

variable [DecidableEq T]

def isAccepted (t : T) (id : Nat) : TransportEvent T → Bool
  | .accepted t' id' => t' == t && id' == id
  | _ => false

/-- The events that end a request. -/
def isOutcome (t : T) (id : Nat) : TransportEvent T → Bool
  | .accepted _ _ => false
  | .received t' id' | .failed t' id' | .acknowledged t' id' => t' == t && id' == id

/-- The transport waits for the acknowledgement of `id`. -/
def Pending (p : Process T) (t : T) (id : Nat) : Bool :=
  (p.transports t).pendingAck && (p.transports t).requestId == id

/-- After the events `h`: the flag of a transport is up exactly if the table holds a record of its,
that record has the transport's request id, and of the requests accepted all but the pending one
have come to exactly one end. -/
structure OneOutstanding (h : List (TransportEvent T)) (p : Process T) : Prop where
  flag : ∀ t, (p.transports t).pendingAck = true ↔
    ∃ id record, p.ackMap.recordIndex.find id = some record ∧ record.requestor = some t
  requestId : ∀ t id record, p.ackMap.recordIndex.find id = some record →
    record.requestor = some t → id = (p.transports t).requestId
  ends : ∀ t id,
    h.countP (isAccepted t id) = h.countP (isOutcome t id) + (p.Pending t id).toNat

/-- The call is not an `acknowledgeTransfer` of a pending request, nor does it accept a request
under an id that is still in the table. -/
def StepOk [LinkWriter] (_h : List (TransportEvent T)) (p : Process T) : Input T → Prop
  | .acknowledgeTransfer t _ => (p.transports t).pendingAck = false
  | .sendReliablePacket t data o =>
    (p.transports t).pendingAck = false → o.sent (p.nextPacket t data) = true →
      p.ackMap.recordIndex.find p.ackMap.currId = none
  | _ => True

end Property

/-! ## Steps -/

/-- The agreement, and that records lie under their own id. -/
structure Agreed [DecidableEq T] (h : List (TransportEvent T)) (p : Process T) : Prop where
  one : OneOutstanding h p
  keyed : ∀ id record, p.ackMap.recordIndex.find id = some record → record.id = id

variable [DecidableEq T] {h : List (TransportEvent T)} {p : Process T}

theorem agreed_new (configured : Option Int) : Agreed [] (new configured : Process T) := by
  refine ⟨⟨?_, ?_, ?_⟩, ?_⟩ <;> simp [new, ConnTransport.new, PendingAckMap.new, Pending]

/-- The record of a pending transport. -/
theorem Agreed.record (hp : Agreed h p) {t : T} (hpend : (p.transports t).pendingAck = true) :
    ∃ record, p.ackMap.recordIndex.find (p.transports t).requestId = some record ∧
      record.requestor = some t := by
  obtain ⟨id, record, hf, hr⟩ := (hp.one.flag t).mp hpend
  rw [← hp.one.requestId t id record hf hr]
  exact ⟨record, hf, hr⟩

/-- A request of `t` ends, with its record taken out and the flag taken down. -/
theorem Agreed.finish (hp : Agreed h p) {t : T} {id : Nat} {record : PendingRecord T}
    (hf : p.ackMap.recordIndex.find id = some record) (hr : record.requestor = some t)
    {p' : Process T} (hindex : p'.ackMap.recordIndex = p.ackMap.recordIndex.erase id)
    (hself : (p'.transports t).pendingAck = false)
    (hother : ∀ t', t' ≠ t → p'.transports t' = p.transports t') {e : TransportEvent T}
    (he : ∀ t' id', isOutcome t' id' e = (t == t' && id == id'))
    (hacc : ∀ t' id', isAccepted t' id' e = false) : Agreed (h ++ [e]) p' := by
  have hid : id = (p.transports t).requestId := hp.one.requestId t id record hf hr
  have hpend : (p.transports t).pendingAck = true := (hp.one.flag t).mpr ⟨id, record, hf, hr⟩
  have hfind : ∀ {id' : Nat} {r : PendingRecord T}, p'.ackMap.recordIndex.find id' = some r →
      id' ≠ id ∧ p.ackMap.recordIndex.find id' = some r := by
    intro id' r hf'
    rw [hindex, UMap.find_erase] at hf'
    split at hf'
    · cases hf'
    · next hne => exact ⟨hne, hf'⟩
  refine ⟨⟨?_, ?_, ?_⟩, fun id' r hf' => hp.keyed id' r (hfind hf').2⟩
  · intro t'
    by_cases ht : t' = t
    · subst ht
      rw [hself]
      constructor
      · intro hc
        cases hc
      · rintro ⟨id', r, hf', hr'⟩
        obtain ⟨hne, hf'⟩ := hfind hf'
        exact absurd ((hp.one.requestId _ id' r hf' hr').trans hid.symm) hne
    · rw [hother t' ht, hp.one.flag t']
      constructor
      · rintro ⟨id', r, hf', hr'⟩
        have hne : id' ≠ id := by
          rintro rfl
          rw [hf] at hf'
          cases hf'
          rw [hr] at hr'
          exact ht (Option.some.inj hr').symm
        exact ⟨id', r, by rw [hindex, UMap.find_erase, if_neg hne]; exact hf', hr'⟩
      · rintro ⟨id', r, hf', hr'⟩
        exact ⟨id', r, (hfind hf').2, hr'⟩
  · intro t' id' r hf' hr'
    obtain ⟨hne, hf'⟩ := hfind hf'
    have hreq := hp.one.requestId t' id' r hf' hr'
    by_cases ht : t' = t
    · subst ht
      exact absurd (hreq.trans hid.symm) hne
    · rw [hother t' ht]
      exact hreq
  · intro t' id'
    have hends := hp.one.ends t' id'
    simp only [List.countP_append, List.countP_singleton, hacc, he]
    unfold Pending at hends ⊢
    by_cases ht : t' = t
    · subst ht
      rw [hself]
      rw [hpend, ← hid] at hends
      by_cases hid' : id = id'
      · subst hid'
        simpa using hends
      · have hbeq : (id == id') = false := by simpa using hid'
        simpa [hbeq] using hends
    · have hne : ¬ t = t' := fun heq => ht heq.symm
      rw [hother t' ht]
      simpa [hne] using hends

/-- A request of `t` is accepted under an id that is not in the table. -/
theorem Agreed.begin (hp : Agreed h p) {t : T} (hpend : (p.transports t).pendingAck = false)
    {id : Nat} (hfree : p.ackMap.recordIndex.find id = none) {record : PendingRecord T}
    (hr : record.requestor = some t) (hkey : record.id = id) {p' : Process T}
    (hindex : p'.ackMap.recordIndex = p.ackMap.recordIndex.emplace id record)
    (hself : (p'.transports t).pendingAck = true ∧ (p'.transports t).requestId = id)
    (hother : ∀ t', t' ≠ t → p'.transports t' = p.transports t') :
    Agreed (h ++ [TransportEvent.accepted t id]) p' := by
  have hfind : ∀ id' r, p'.ackMap.recordIndex.find id' = some r ↔
      (id' = id ∧ r = record) ∨ (id' ≠ id ∧ p.ackMap.recordIndex.find id' = some r) := by
    intro id' r
    rw [hindex, UMap.find_emplace, hfree]
    by_cases hid : id' = id
    · simp [hid, eq_comm]
    · simp [hid]
  have hnone : ∀ {id' : Nat} {r : PendingRecord T},
      p.ackMap.recordIndex.find id' = some r → r.requestor ≠ some t := by
    intro id' r hf' hr'
    have := (hp.one.flag t).mpr ⟨id', r, hf', hr'⟩
    rw [hpend] at this
    cases this
  refine ⟨⟨?_, ?_, ?_⟩, ?_⟩
  · intro t'
    by_cases ht : t' = t
    · subst ht
      exact ⟨fun _ => ⟨id, record, (hfind _ _).mpr (.inl ⟨rfl, rfl⟩), hr⟩, fun _ => hself.1⟩
    · rw [hother t' ht, hp.one.flag t']
      constructor
      · rintro ⟨id', r, hf', hr'⟩
        have hne : id' ≠ id := by
          rintro rfl
          rw [hfree] at hf'
          cases hf'
        exact ⟨id', r, (hfind _ _).mpr (.inr ⟨hne, hf'⟩), hr'⟩
      · rintro ⟨id', r, hf', hr'⟩
        rcases (hfind _ _).mp hf' with ⟨-, rfl⟩ | ⟨-, hf'⟩
        · rw [hr] at hr'
          exact absurd (Option.some.inj hr').symm ht
        · exact ⟨id', r, hf', hr'⟩
  · intro t' id' r hf' hr'
    rcases (hfind _ _).mp hf' with ⟨rfl, rfl⟩ | ⟨-, hf'⟩
    · rw [hr] at hr'
      cases hr'
      exact hself.2.symm
    · have ht : t' ≠ t := by
        rintro rfl
        exact hnone hf' hr'
      rw [hother t' ht]
      exact hp.one.requestId t' id' r hf' hr'
  · intro t' id'
    have hends := hp.one.ends t' id'
    simp only [List.countP_append, List.countP_singleton, isAccepted, isOutcome]
    unfold Pending at hends ⊢
    by_cases ht : t' = t
    · subst ht
      rw [hself.1, hself.2]
      rw [hpend] at hends
      by_cases hid : id = id'
      · subst hid
        simpa using hends
      · have hbeq : (id == id') = false := by simpa using hid
        simpa [hbeq] using hends
    · have hne : ¬ t = t' := fun heq => ht heq.symm
      rw [hother t' ht]
      simpa [hne] using hends
  · intro id' r hf'
    rcases (hfind _ _).mp hf' with ⟨rfl, rfl⟩ | ⟨-, hf'⟩
    · exact hkey
    · exact hp.keyed id' r hf'

/-- Nothing that matters to a transport changes. -/
theorem Agreed.of_same (hp : Agreed h p) {p' : Process T}
    (hsame : ∀ t, (p'.transports t).pendingAck = (p.transports t).pendingAck ∧
      (p'.transports t).requestId = (p.transports t).requestId)
    (hindex : ∀ t id, (∃ record, p'.ackMap.recordIndex.find id = some record ∧
      record.requestor = some t) ↔ ∃ record, p.ackMap.recordIndex.find id = some record ∧
      record.requestor = some t)
    (hkeyed : ∀ id record, p'.ackMap.recordIndex.find id = some record → record.id = id) :
    Agreed h p' := by
  refine ⟨⟨?_, ?_, ?_⟩, hkeyed⟩
  · intro t
    rw [(hsame t).1, hp.one.flag t]
    exact exists_congr fun id => (hindex t id).symm
  · intro t id record hf hr
    obtain ⟨record', hf', hr'⟩ := (hindex t id).mp ⟨record, hf, hr⟩
    rw [(hsame t).2]
    exact hp.one.requestId t id record' hf' hr'
  · intro t id
    have := hp.one.ends t id
    unfold Pending at this ⊢
    rw [(hsame t).1, (hsame t).2]
    exact this

/-- A record without a requestor is taken out. -/
theorem Agreed.erase (hp : Agreed h p) {id : Nat} {record : PendingRecord T}
    (hf : p.ackMap.recordIndex.find id = some record) (hr : record.requestor = none)
    {ackMap : PendingAckMap T} (hindex : ackMap.recordIndex = p.ackMap.recordIndex.erase id) :
    Agreed h { p with ackMap } := by
  have hfind : ∀ id' r, ackMap.recordIndex.find id' = some r ↔
      id' ≠ id ∧ p.ackMap.recordIndex.find id' = some r := by
    intro id' r
    rw [hindex, UMap.find_erase]
    by_cases hid : id' = id <;> simp [hid]
  refine hp.of_same (fun _ => ⟨rfl, rfl⟩) (fun t id' => ?_)
    fun id' r hf' => hp.keyed id' r ((hfind _ _).mp hf').2
  constructor
  · rintro ⟨r, hf', hr'⟩
    exact ⟨r, ((hfind _ _).mp hf').2, hr'⟩
  · rintro ⟨r, hf', hr'⟩
    refine ⟨r, (hfind _ _).mpr ⟨?_, hf'⟩, hr'⟩
    rintro rfl
    rw [hf] at hf'
    cases hf'
    rw [hr] at hr'
    cases hr'

/-- A record is put in the place of one with the same requestor, or of none if it has none. -/
theorem Agreed.assign (hp : Agreed h p) {id : Nat} {record : PendingRecord T}
    (hr : (p.ackMap.recordIndex.find id).bind (·.requestor) = record.requestor)
    (hkey : record.id = id) {ackMap : PendingAckMap T}
    (hindex : ackMap.recordIndex = p.ackMap.recordIndex.assign id record) :
    Agreed h { p with ackMap } := by
  have hfind : ∀ id' r, ackMap.recordIndex.find id' = some r ↔
      (id' = id ∧ r = record) ∨ (id' ≠ id ∧ p.ackMap.recordIndex.find id' = some r) := by
    intro id' r
    rw [hindex, UMap.find_assign]
    by_cases hid : id' = id
    · simp [hid, eq_comm]
    · simp [hid]
  refine hp.of_same (fun _ => ⟨rfl, rfl⟩) (fun t id' => ?_) fun id' r hf' => ?_
  · constructor
    · rintro ⟨r, hf', hr'⟩
      rcases (hfind _ _).mp hf' with ⟨rfl, rfl⟩ | ⟨-, hf'⟩
      · rw [hr'] at hr
        exact Option.bind_eq_some_iff.mp hr
      · exact ⟨r, hf', hr'⟩
    · rintro ⟨r, hf', hr'⟩
      by_cases hid : id' = id
      · subst hid
        refine ⟨record, (hfind _ _).mpr (.inl ⟨rfl, rfl⟩), ?_⟩
        rw [← hr, hf']
        exact hr'
      · exact ⟨r, (hfind _ _).mpr (.inr ⟨hid, hf'⟩), hr'⟩
  · rcases (hfind _ _).mp hf' with ⟨rfl, rfl⟩ | ⟨-, hf'⟩
    · exact hkey
    · exact hp.keyed id' r hf'

theorem Agreed.sendReliablePacket [LinkWriter] (hp : Agreed h p) {t : T} {data : List UInt8}
    {o : SendOutcome} (hok : (p.transports t).pendingAck = false →
      o.sent (p.nextPacket t data) = true → p.ackMap.recordIndex.find p.ackMap.currId = none) :
    Agreed (h ++ (p.sendReliablePacket t data o).2.2) (p.sendReliablePacket t data o).2.1 := by
  unfold Process.sendReliablePacket
  dsimp only
  split
  · simpa using hp
  next hpend =>
  rw [Bool.not_eq_true] at hpend
  split
  · rw [List.append_nil]
    refine hp.of_same (fun t' => ?_) (fun _ _ => Iff.rfl) hp.keyed
    by_cases ht : t' = t
    · subst ht
      simp
    · simp [setTransport_other _ ht]
  · next hsent =>
    rw [Bool.not_eq_false] at hsent
    refine hp.begin hpend (hok hpend hsent) rfl rfl rfl ⟨?_, ?_⟩ fun t' ht => ?_
    · simp
    · simp [PendingAckMap.add]
    · exact setTransport_other _ ht _

theorem Agreed.dataAck (hp : Agreed h p) (t : T) (now : Nat) :
    Agreed (h ++ (p.handleConnDataAck t now).2.2) (p.handleConnDataAck t now).2.1 := by
  unfold handleConnDataAck
  dsimp only
  split
  · simpa using hp
  next hpend =>
  rw [Bool.not_eq_false] at hpend
  obtain ⟨record, hf, hr⟩ := hp.record hpend
  obtain ⟨hstatus, hindex, -⟩ := PendingAckMap.remove_some hf now
  simp only [hstatus, Bool.true_eq_false, if_false, ConnTransport.handleSendReceived,
    ConnTransport.requestDone, ne_eq, not_true_eq_false, if_true]
  refine hp.finish (e := .received t _) hf hr ?_ ?_ (fun t' ht => ?_) (fun _ _ => rfl)
    (fun _ _ => rfl)
  · exact hindex
  · rw [setTransport_self]
  · exact setTransport_other _ ht _

theorem Agreed.retry (hp : Agreed h p) (now : Nat) (entry : RetryEntry) (draw : ℚ) :
    Agreed (h ++ (p.retry now entry draw).2) (p.retry now entry draw).1 := by
  unfold Process.retry
  dsimp only
  rcases p.ackMap.retry_cases now entry draw with ⟨hindex, hev⟩ | ⟨record, hf, hindex, hev⟩ |
    ⟨record, hf, hindex, hev⟩
  · simp only [hev, List.append_nil]
    exact hp.of_same (fun _ => ⟨rfl, rfl⟩) (fun _ _ => by rw [hindex])
      (by rw [hindex]; exact hp.keyed)
  · have hkey := hp.keyed _ _ hf
    simp only [hev]
    cases hr : record.requestor with
    | none =>
      simp only [notifyFailure, List.append_nil]
      exact hp.erase hf hr hindex
    | some t =>
      have hid : record.id = (p.transports t).requestId :=
        hkey.trans (hp.one.requestId t _ record hf hr)
      simp only [notifyFailure, ConnTransport.handleSendFailure, ConnTransport.requestDone, hid,
        ne_eq, not_true_eq_false, if_false, if_true]
      refine hp.finish (e := .failed t _) hf hr ?_ ?_ (fun t' ht => ?_) (fun t' id' => ?_)
        (fun _ _ => rfl)
      · exact hindex
      · rw [setTransport_self]
      · exact setTransport_other _ ht _
      · simp [isOutcome, ← hid, hkey]
  · simp only [hev, notifyFailure, List.append_nil]
    refine hp.assign ?_ ?_ hindex
    · rw [hf]
      rfl
    · rw [PendingAckMap.resend_id]
      exact hp.keyed _ _ hf

theorem Agreed.muxSend (hp : Agreed h p) (data : List UInt8) (now ip port : Nat) (draw : ℚ) :
    Agreed h (p.muxSend data now ip port draw) := by
  obtain ⟨record, hkey, hr, hadd⟩ := p.ackMap.add_index now none data ip port draw
  cases hf : p.ackMap.recordIndex.find p.ackMap.currId with
  | none =>
    refine hp.assign ?_ hkey ?_
    · rw [hf, hr]
      rfl
    · rw [hadd]
      simp [UMap.emplace, hf]
  | some old =>
    -- The id has come round: the table keeps the old record.
    have hindex : (p.muxSend data now ip port draw).ackMap.recordIndex = p.ackMap.recordIndex :=
      UMap.emplace_of_find hf _
    exact hp.of_same (fun _ => ⟨rfl, rfl⟩) (fun _ _ => by rw [hindex])
      (by rw [hindex]; exact hp.keyed)

theorem Agreed.muxComplete (hp : Agreed h p) (now id : Nat) : Agreed h (p.muxComplete now id) := by
  unfold Process.muxComplete
  split
  · next record hf =>
    split
    · next hnone => exact hp.erase hf (by simpa using hnone) (PendingAckMap.remove_some hf now).2.1
    · exact hp
  · exact hp

/-- A transport is changed in what has nothing to do with its request. -/
theorem Agreed.setTransport (hp : Agreed h p) {t : T} {transport : ConnTransport}
    (hpend : transport.pendingAck = (p.transports t).pendingAck)
    (hid : transport.requestId = (p.transports t).requestId) :
    Agreed h (p.setTransport t transport) := by
  refine hp.of_same (fun t' => ?_) (fun _ _ => Iff.rfl) hp.keyed
  by_cases ht : t' = t
  · subst ht
    rw [setTransport_self]
    exact ⟨hpend, hid⟩
  · simp [setTransport_other _ ht]

/-! ## Runs -/

section AnyWriter

variable [LinkWriter]

theorem Agreed.step {input : Input T} (hp : Agreed h p) (hok : StepOk h p input) :
    Agreed (h ++ (machine.step p input).2) (machine.step p input).1 := by
  cases input with
  | sendReliablePacket t data o => exact hp.sendReliablePacket hok
  | acknowledgeTransfer t now =>
    have hpend : (p.transports t).pendingAck = false := hok
    simp only [machine, Process.acknowledgeTransfer, hpend, if_true, List.append_nil]
    exact hp
  | dataAck t now => exact hp.dataAck t now
  | setRecvSequenceNum t currSequenceNum =>
    simp only [machine, List.append_nil]
    exact hp.setTransport rfl rfl
  | setPeerLocation t ipAddress port =>
    simp only [machine, List.append_nil]
    exact hp.setTransport rfl rfl
  | retry now entry draw => exact hp.retry now entry draw
  | muxSend data now ip port draw =>
    simp only [machine, List.append_nil]
    exact hp.muxSend data now ip port draw
  | muxComplete now id =>
    simp only [machine, List.append_nil]
    exact hp.muxComplete now id

/-- A step after which the agreement still holds was a good one. -/
theorem Agreed.ok_of_one {input : Input T} (hp : Agreed h p)
    (hone : OneOutstanding (h ++ (machine.step p input).2) (machine.step p input).1) :
    StepOk h p input := by
  cases input with
  | acknowledgeTransfer t now =>
    show (p.transports t).pendingAck = false
    by_contra hpend
    rw [Bool.not_eq_false] at hpend
    obtain ⟨record, hf, hr⟩ := hp.record hpend
    -- The flag is down and the record still in the table.
    have hdown : ((machine.step p (.acknowledgeTransfer t now)).1.transports t).pendingAck =
        false := by
      simp [machine, Process.acknowledgeTransfer, hpend, muxAcknowledgeTransfer]
    have hkept : (machine.step p (.acknowledgeTransfer t now)).1.ackMap = p.ackMap := by
      simp [machine, Process.acknowledgeTransfer, hpend, muxAcknowledgeTransfer]
    have hup := (hone.flag t).mpr ⟨_, record, by rw [hkept]; exact hf, hr⟩
    rw [hdown] at hup
    cases hup
  | sendReliablePacket t data o =>
    intro hpend hsent
    by_contra hused
    obtain ⟨record, hf⟩ := Option.ne_none_iff_exists'.mp hused
    -- The table keeps the old record, which is not of this transport.
    have hindex : (machine.step p (.sendReliablePacket t data o)).1.ackMap.recordIndex =
        p.ackMap.recordIndex := by
      simp only [machine, Process.sendReliablePacket, hpend, hsent, Bool.false_eq_true, if_false,
        Bool.true_eq_false]
      exact UMap.emplace_of_find hf _
    have hup : ((machine.step p (.sendReliablePacket t data o)).1.transports t).pendingAck = true := by
      simp [machine, Process.sendReliablePacket, hpend, hsent]
    obtain ⟨id, record', hf', hr'⟩ := (hone.flag t).mp hup
    rw [hindex] at hf'
    have := (hp.one.flag t).mpr ⟨id, record', hf', hr'⟩
    rw [hpend] at this
    cases this
  | _ => trivial

/-- With any writer, every transport has one outstanding request at most, in all three places, along
a run exactly if each call of the run is a good one. -/
theorem along_oneOutstanding_iff (configured : Option Int) (inputs : List (Input T)) :
    machine.Along (fun h p input => OneOutstanding (h ++ (machine.step p input).2)
        (machine.step p input).1) [] (new configured) inputs ↔
      machine.Along StepOk [] (new configured) inputs :=
  Machine.along_congr (I := Agreed) (fun _ _ _ hp hok => hp.step hok)
    (fun _ _ _ hp => ⟨hp.ok_of_one, fun hok => (hp.step hok).one⟩) (agreed_new configured)

end AnyWriter

theorem Idle.step (hi : Idle p) (input : Input T) : Idle (machine.step p input).1 := by
  cases input with
  | sendReliablePacket t data o => exact hi.sendReliablePacket t data o
  | acknowledgeTransfer t now =>
    simp only [machine, hi.acknowledgeTransfer]
    exact hi
  | dataAck t now =>
    simp only [machine, hi.handleConnDataAck]
    exact hi
  | setRecvSequenceNum t currSequenceNum => exact hi.setRecvSequenceNum t currSequenceNum
  | setPeerLocation t ipAddress port => exact hi.setPeerLocation t ipAddress port
  | retry now entry draw => exact (hi.retry now entry draw).1
  | muxSend data now ip port draw => exact hi.muxSend data now ip port draw
  | muxComplete now id => exact hi.muxComplete now id

omit [DecidableEq T] in
/-- While no transport waits every call is a good one. -/
theorem Idle.stepOk (hi : Idle p) (input : Input T) : StepOk h p input := by
  cases input with
  | sendReliablePacket t data o =>
    intro _ hsent
    rw [SendOutcome.sent_eq_false] at hsent
    cases hsent
  | acknowledgeTransfer t now => exact hi.flag t
  | _ => trivial

/-- Along every run of the code every transport has one outstanding request at most, in all three
places. -/
theorem along_oneOutstanding (configured : Option Int) (inputs : List (Input T)) :
    machine.Along (fun h p input => OneOutstanding (h ++ (machine.step p input).2)
      (machine.step p input).1) [] (new configured) inputs :=
  (along_oneOutstanding_iff configured inputs).mpr
    (Machine.run_along (I := fun _ p => Idle p) (fun _ _ input hi => hi.step input)
      (fun _ _ input hi => hi.stepOk input) inputs (idle_new configured))

end Alpine.Process
