import Alpine.Protocol.ProfileSearch

/-!
# Relocations along a run

The records stay linked as long as every relocation of the run finds a place behind the neighbour it
passes: creation, erasure and the count of queries do no harm (`Threaded.step`). Then no relocation
leaves the records in use or goes on for longer than there are records (`along_relocates`).
-/

namespace Alpine.PeerProfileIndex

open Lib

variable {m m' : PeerProfileIndex} {l : List Nat}

/-- The arguments of `relocate`: the index, with the profile changed, the record and its quality. -/
def relocation (m : PeerProfileIndex) (peerId : Nat) (f : PeerProfile → PeerProfile)
    (delta : Int) : Option (PeerProfileIndex × Nat × Int) := do
  let currIndex ← m.profileIndex.find peerId
  let profile ← (m.profileArray currIndex).profile
  let profile := (f profile).modifyRelativeQuality delta
  pure (m.update currIndex fun r => { r with profile := some profile }, currIndex, profile.quality)

/-- The calls that change an index. -/
inductive Operation where
  | call (input : Input)
  | querySent (peerId : Nat)

/-- What an operation relocates. -/
def Operation.relocation (m : PeerProfileIndex) :
    Operation → Option (PeerProfileIndex × Nat × Int)
  | .call (.adjustQuality peerId delta) => m.relocation peerId id delta
  | .call (.responseReceived peerId) => m.relocation peerId PeerProfile.incrTotalQueries 1
  | .call (.badPacketReceived peerId) => m.relocation peerId id (-3)
  | .call (.reliableTransferFailed peerId) => m.relocation peerId id (-2)
  | .call (.create _) => none
  | .call (.erase _) => none
  | .querySent _ => none

def perform (m : PeerProfileIndex) : Operation → Option (Bool × PeerProfileIndex)
  | .call input => m.call input
  | .querySent peerId => m.querySent peerId

/-- Runs of operations; `none` once one of them has no result. -/
def operations : Machine (Option PeerProfileIndex) Operation Bool where
  step
    | none, _ => (none, [])
    | some m, operation =>
      match m.perform operation with
      | none => (none, [])
      | some (status, m') => (some m', [status])

/-- There is an index, and what is relocated stays in range and comes to its end. -/
def StepInRange (_h : List Bool) (s : Option PeerProfileIndex) (operation : Operation) : Prop :=
  ∃ m, s = some m ∧ ∀ changed i value, operation.relocation m = some (changed, i, value) →
    changed.Relocates i value

/-- For every record and every quality that it may get. -/
def StepExact (_h : List Bool) (s : Option PeerProfileIndex) (_operation : Operation) : Prop :=
  ∃ m, s = some m ∧ ∀ i value, m.Live i → (m.Relocates i value ↔ m.Searchable i value)

/-- What is relocated finds a place. -/
def StepRejoins (_h : List Bool) (s : Option PeerProfileIndex) (operation : Operation) : Prop :=
  ∀ m, s = some m → ∀ changed i value, operation.relocation m = some (changed, i, value) →
    changed.Rejoins i value

/-! ## A profile is changed -/

/-- The links and the records in use stay as they are. -/
theorem Threaded.modified {i : Nat} {value : Int} (ht : Threaded m l) (hm : Modified i value m m') :
    Threaded m' l := by
  refine ⟨?_, ht.nodup, fun j => ?_, fun hne => ?_, ?_, ?_, ?_, fun peerId j hf => ?_⟩
  · rw [hm.next, hm.prev]
    exact ht.links
  · rw [ht.live]
    unfold Live
    rw [hm.index]
  · obtain ⟨b, hb, hbase⟩ := ht.base hne
    exact ⟨b, hb, hm.base.trans hbase⟩
  · rw [hm.free, hm.size]
    exact ht.partition
  · rw [hm.count]
    exact ht.count
  · rw [hm.size]
    exact ht.pos
  · rw [hm.index] at hf
    obtain ⟨profile, hprofile, rfl⟩ := ht.profile peerId j hf
    by_cases hji : j = i
    · subst hji
      obtain ⟨old, new, hold, hnew, hid, -⟩ := hm.profile
      rw [hprofile] at hold
      cases hold
      exact ⟨new, hnew, hid⟩
    · rw [hm.other j hji]
      exact ⟨profile, hprofile, rfl⟩

/-- A write of a profile with the same id. -/
theorem modified_update (new : PeerProfile) {i : Nat} {profile : PeerProfile}
    (hprofile : (m.profileArray i).profile = some profile) (hid : new.peerId = profile.peerId) :
    Modified i new.quality m (m.update i fun r => { r with profile := some new }) := by
  refine ⟨?_, ?_, ⟨profile, new, hprofile, ?_, hid, rfl⟩, fun j hj => ?_, rfl, rfl, rfl, rfl, rfl,
    rfl, rfl⟩
  · funext j
    rw [update_next]
    split <;> rfl
  · funext j
    rw [update_prev]
    split <;> rfl
  · rw [update_array, if_pos rfl]
  · rw [update_array, if_neg hj]

/-- A peer that is there is relocated in the list; without it nothing happens. -/
theorem Threaded.modify_cases (ht : Threaded m l) (peerId : Nat) {f : PeerProfile → PeerProfile}
    (hkeep : ∀ profile, (f profile).peerId = profile.peerId) (delta : Int) :
    (m.modify peerId f delta = some (false, m) ∧ m.relocation peerId f delta = none) ∨
      ∃ changed i value, m.relocation peerId f delta = some (changed, i, value) ∧
        Threaded changed l ∧ i ∈ l ∧
        m.modify peerId f delta = (changed.relocate i value).map fun m' => (true, m') := by
  cases hf : m.profileIndex.find peerId with
  | none =>
    refine .inl ⟨?_, ?_⟩
    · unfold PeerProfileIndex.modify
      rw [hf]
    · unfold PeerProfileIndex.relocation
      rw [hf]
      rfl
  | some i =>
    obtain ⟨profile, hprofile, -⟩ := ht.profile peerId i hf
    have hm := modified_update ((f profile).modifyRelativeQuality delta) hprofile (hkeep profile)
    refine .inr ⟨_, i, ((f profile).modifyRelativeQuality delta).quality, ?_, ht.modified hm,
      (ht.live i).mpr ⟨peerId, hf⟩, ?_⟩
    · unfold PeerProfileIndex.relocation
      rw [hf, Option.bind_eq_bind, Option.bind_some, hprofile]
      rfl
    · unfold PeerProfileIndex.modify
      rw [hf]
      dsimp only
      rw [hprofile]
      dsimp only [Option.bind_eq_bind, Option.bind_some]
      cases PeerProfileIndex.relocate _ i _ <;> rfl

theorem Threaded.querySent (ht : Threaded m l) (peerId : Nat) :
    ∃ status m', m.querySent peerId = some (status, m') ∧ Threaded m' l := by
  unfold PeerProfileIndex.querySent
  cases hf : m.profileIndex.find peerId with
  | none => exact ⟨false, m, rfl, ht⟩
  | some i =>
    obtain ⟨profile, hprofile, -⟩ := ht.profile peerId i hf
    have hm := modified_update profile.incrTotalQueries hprofile rfl
    dsimp only
    rw [hprofile]
    exact ⟨true, _, rfl, ht.modified hm⟩

/-! ## Runs -/

/-- The calls that relocate. -/
theorem Threaded.modify_step (ht : Threaded m l) (peerId : Nat) (f : PeerProfile → PeerProfile)
    (hkeep : ∀ profile, (f profile).peerId = profile.peerId) (delta : Int)
    (hrejoins : ∀ changed i value, m.relocation peerId f delta = some (changed, i, value) →
      changed.Rejoins i value) :
    (∀ changed i value, m.relocation peerId f delta = some (changed, i, value) →
      changed.Relocates i value) ∧
      ∃ status m' l', m.modify peerId f delta = some (status, m') ∧ Threaded m' l' := by
  rcases ht.modify_cases peerId hkeep delta with ⟨hmodify, hnone⟩ |
    ⟨changed, i, value, hsome, ht', hi, hmodify⟩
  · rw [hnone]
    exact ⟨fun _ _ _ h => (nomatch h), false, m, l, hmodify, ht⟩
  · have hr := hrejoins changed i value hsome
    refine ⟨fun changed' i' value' h => ?_, ?_⟩
    · rw [hsome] at h
      cases h
      exact (ht'.relocates_iff hi value).mpr hr.searchable
    · obtain ⟨m', l', hm', hl'⟩ := ht'.rejoins hi hr
      rw [hm'] at hmodify
      exact ⟨true, m', l', hmodify, hl'⟩

theorem Threaded.step (ht : Threaded m l) (h : List Bool) (operation : Operation)
    (hrejoins : StepRejoins h (some m) operation) :
    StepInRange h (some m) operation ∧
      ∃ status m' l', m.perform operation = some (status, m') ∧ Threaded m' l' := by
  have hrejoins := hrejoins m rfl
  cases operation with
  | querySent peerId =>
    obtain ⟨status, m', hm', ht'⟩ := ht.querySent peerId
    exact ⟨⟨m, rfl, fun _ _ _ h => by cases h⟩, status, m', l, hm', ht'⟩
  | call input =>
    cases input with
    | create peerId =>
      exact ⟨⟨m, rfl, fun _ _ _ h => by cases h⟩, ht.create peerId⟩
    | erase peerId =>
      obtain ⟨l', ht'⟩ := ht.erase peerId
      exact ⟨⟨m, rfl, fun _ _ _ h => by cases h⟩, _, _, l', rfl, ht'⟩
    | adjustQuality peerId delta =>
      obtain ⟨hrange, hstep⟩ := ht.modify_step peerId id (fun _ => rfl) delta hrejoins
      exact ⟨⟨m, rfl, hrange⟩, hstep⟩
    | responseReceived peerId =>
      obtain ⟨hrange, hstep⟩ :=
        ht.modify_step peerId PeerProfile.incrTotalQueries (fun _ => rfl) 1 hrejoins
      exact ⟨⟨m, rfl, hrange⟩, hstep⟩
    | badPacketReceived peerId =>
      obtain ⟨hrange, hstep⟩ := ht.modify_step peerId id (fun _ => rfl) (-3) hrejoins
      exact ⟨⟨m, rfl, hrange⟩, hstep⟩
    | reliableTransferFailed peerId =>
      obtain ⟨hrange, hstep⟩ := ht.modify_step peerId id (fun _ => rfl) (-2) hrejoins
      exact ⟨⟨m, rfl, hrange⟩, hstep⟩

theorem operations_some {operation : Operation} {status : Bool}
    (h : m.perform operation = some (status, m')) :
    operations.step (some m) operation = (some m', [status]) := by
  simp only [operations, h]

/-- If every relocation of a run finds a place, all of them stay in range and come to their end, and
in every state the same can be told of any record. -/
theorem along_relocates (reserve : Int) (run : List Operation)
    (h : operations.Along StepRejoins [] (some (new reserve)) run) :
    operations.Along (fun h s operation => StepInRange h s operation ∧ StepExact h s operation)
      [] (some (new reserve)) run := by
  refine Machine.along_imp (I := fun _ s => ∃ m l, s = some m ∧ Threaded m l) ?_ ?_
    ⟨_, [], rfl, threaded_new reserve⟩ h
  · rintro h _ operation ⟨m, l, rfl, ht⟩ hrejoins
    obtain ⟨-, status, m', l', hstep, ht'⟩ := ht.step h operation hrejoins
    rw [operations_some hstep]
    exact ⟨m', l', rfl, ht'⟩
  · rintro h _ operation ⟨m, l, rfl, ht⟩ hrejoins
    exact ⟨(ht.step h operation hrejoins).1, m, rfl,
      fun i value hi => ht.relocates_iff ((ht.live i).mpr hi) value⟩

/-- The best of four peers, and then the worst goes past one of the others. -/
def fourPeers : List Operation :=
  [.call (.create 1), .call (.create 2), .call (.create 3), .call (.create 4),
    .call (.adjustQuality 1 5), .querySent 4, .call (.adjustQuality 4 2), .call (.erase 1)]

theorem fourPeers_relocates :
    operations.Along (fun h s operation => StepInRange h s operation ∧ StepExact h s operation)
      [] (some (new 128)) fourPeers := by
  refine along_relocates 128 fourPeers ⟨?_, ?_, ?_, ?_, ?_, ?_, ?_, ?_, trivial⟩
  · rintro m - changed i value h
    cases h
  · rintro m - changed i value h
    cases h
  · rintro m - changed i value h
    cases h
  · rintro m - changed i value h
    cases h
  · rintro m hm changed i value h
    cases hm
    cases h
    refine ⟨fun n hn => ?_, fun p hp hlt => ?_⟩
    · cases hn
    · cases hp
      exact absurd hlt (by decide +kernel)
  · rintro m - changed i value h
    cases h
  · rintro m hm changed i value h
    cases hm
    cases h
    refine ⟨fun n hn hlt => ?_, fun p hp => ?_⟩
    · cases hn
      exact ⟨0, .tail (.single rfl) rfl, by decide +kernel⟩
    · cases hp
  · rintro m - changed i value h
    cases h

/-- The worst of three peers becomes the best. -/
def threePeers : List Operation := [.call (.create 1), .call (.create 2), .call (.create 3)]

/-- A peer goes past the only other one and is erased. -/
def passedLast : List Operation :=
  [.call (.create 1), .call (.create 2), .call (.adjustQuality 2 1), .call (.erase 2)]

/-- The loop reads the array at `linkEnd`; the record that is left still has the erased one as a
neighbour. -/
theorem passedLast_not_inRange :
    ¬ operations.Along StepInRange [] (some (new 128))
        (threePeers ++ [.call (.responseReceived 3)]) ∧
      ¬ operations.Along StepInRange [] (some (new 128))
        (passedLast ++ [.call (.adjustQuality 1 5)]) := by
  constructor
  · intro h
    obtain ⟨-, ⟨m, hm, hrange⟩, -⟩ := Machine.along_append.mp h
    cases hm
    have hsome := Option.isSome_iff_exists.mpr (hrange _ _ _ rfl).result
    revert hsome
    decide +kernel
  · intro h
    obtain ⟨-, ⟨m, hm, hrange⟩, -⟩ := Machine.along_append.mp h
    cases hm
    obtain ⟨k, hk, peerId, hlive⟩ := (hrange _ _ _ rfl).live (some 1) (by decide +kernel)
    cases hk
    have hmem := UMap.mem_values hlive
    revert hmem
    decide +kernel

end Alpine.PeerProfileIndex
