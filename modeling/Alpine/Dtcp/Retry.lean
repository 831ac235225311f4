import Alpine.Dtcp.MuxSteps

/-!
# A failed attempt blocks its address

An attempt to connect, from either side, takes a peer id and leaves entries under it and under
the address. Nothing takes them away again: `removePendingConnection`, `removeConnection` and the
transport's `handleSendFailure` are empty, and the failure paths of the handlers call nothing
else. So the address stays taken in every later state (`attempt_blocks`), and what the cleanup is
there for holds of a run only as long as no attempt in it has failed
(`retryable_iff_no_failure`).
-/

namespace Alpine.ConnMux

open Lib
open ConnectionMap (Created WellIndexed)

variable {T C : Type}

/-- Nothing mentions the address or the peer id any more, and the address can be tried again. -/
structure Released (m : ConnMux T C) (peerId : Nat) (address : IpPortPair) : Prop where
  notExists : m.connectionMap.existsAt address.ipAddress address.port = false
  accepted : (m.connectionMap.createConnection address.ipAddress address.port).1.isSome
  peerIndex : m.connectionMap.existsPeer peerId = false
  connRequestIndex : m.connRequestIndex.find peerId = none
  pendingAcceptIndex : m.pendingAcceptIndex.find peerId = none
  pendingTransportIndex :
    m.pendingTransportIndex.find (ipPortToNetId address.ipAddress address.port) = none
  pendingAckIndex :
    m.pendingAckIndex.find (ipPortToNetId address.ipAddress address.port) = none

/-- Every attempt that failed has been cleaned up after. -/
def Retryable (h : List (MuxEvent T C)) (m : ConnMux T C) : Prop :=
  ∀ peerId address, .attempt peerId address ∈ h → .failed address ∈ h → Released m peerId address

/-- Once an address was tried it exists, its id exists, and no other attempt at it is accepted. -/
theorem attempt_blocks {h : List (MuxEvent T C)} {m : ConnMux T C}
    (hm : WellIndexed (attempts h) m.connectionMap) {peerId : Nat} {address : IpPortPair}
    (ha : .attempt peerId address ∈ h) :
    m.connectionMap.existsAt address.ipAddress address.port = true ∧
      m.connectionMap.existsPeer peerId = true ∧
      m.connectionMap.createConnection address.ipAddress address.port =
        (none, m.connectionMap) := by
  have hmem : (⟨peerId, address⟩ : Created) ∈ attempts h := mem_attempts.mpr ha
  have hex : m.connectionMap.existsAt address.ipAddress address.port = true := hm.address _ hmem
  refine ⟨hex, ?_, ?_⟩
  · obtain ⟨x, hx⟩ := Option.isSome_iff_exists.mp (hm.peer _ hmem)
    simp only at hx
    simp [ConnectionMap.existsPeer, hx]
  · simp [ConnectionMap.createConnection, hex]

variable [DecidableEq T]

/-- After every run of the multiplexor, what a failed attempt leaves behind is cleaned up exactly
if no attempt has failed: no address that was tried is ever released. -/
theorem retryable_iff_no_failure (now : Nat) (inputs : List (Input T C)) :
    (Retryable (machine.run (new now) inputs).2 (machine.run (new now) inputs).1 ↔
      ¬ ∃ peerId address, .attempt peerId address ∈ (machine.run (new now) inputs).2 ∧
        .failed address ∈ (machine.run (new now) inputs).2) ∧
    ∀ peerId address, .attempt peerId address ∈ (machine.run (new now) inputs).2 →
      ¬ Released (machine.run (new now) inputs).1 peerId address ∧
      (machine.run (new now) inputs).1.connectionMap.existsPeer peerId = true ∧
      ((machine.run (new now) inputs).1.connectionMap.createConnection
        address.ipAddress address.port).1 = none := by
  have hblock : ∀ peerId address, .attempt peerId address ∈ (machine.run (new now) inputs).2 →
      ¬ Released (machine.run (new now) inputs).1 peerId address := by
    intro peerId address ha hrel
    obtain ⟨hex, -, -⟩ := attempt_blocks (wellIndexed_run now inputs) ha
    rw [hrel.notExists] at hex
    cases hex
  refine ⟨⟨?_, ?_⟩, ?_⟩
  · rintro hr ⟨peerId, address, ha, hf⟩
    exact hblock peerId address ha (hr peerId address ha hf)
  · intro hnone peerId address ha hf
    exact absurd ⟨peerId, address, ha, hf⟩ hnone
  · intro peerId address ha
    obtain ⟨-, hpeer, hcreate⟩ := attempt_blocks (wellIndexed_run now inputs) ha
    exact ⟨hblock peerId address ha, hpeer, by rw [hcreate]⟩

/-- A request whose packet could not be sent. -/
theorem failed_send_not_retryable :
    ¬ Retryable
      (machine.run (new 1000) [Input.requestTransport (T := Bool) () true 1 2 none]).2
      (machine.run (new 1000) [Input.requestTransport (T := Bool) () true 1 2 none]).1 := by
  intro hr
  have h : MuxEvent.attempt 1000 ⟨1, 2⟩ ∈
      (machine.run (new 1000) [Input.requestTransport (T := Bool) () true 1 2 none]).2 := by decide
  have hrel := (hr 1000 ⟨1, 2⟩ h (by decide)).notExists
  revert hrel
  decide

end Alpine.ConnMux
