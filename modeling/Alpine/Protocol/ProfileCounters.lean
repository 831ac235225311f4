import Mathlib.Algebra.Ring.Int.Defs
import Alpine.Protocol.RelocationRuns

/-!
# The counters of the profiles

A profile counts the queries that were sent to its peer and the responses that came back, and its
quality falls and rises with the events of the peer. Where its record is linked has no part in that
(`perform_effect`). But `responseReceived` counts a query, so that the profiles say what
happened only in runs without responses (`along_reflects_iff_fits`); the quality goes around at the
ends of a `short`.
-/

namespace Alpine.PeerProfileIndex

open Lib

inductive ProfileEvent where
  | create (peerId : Nat)
  | erase (peerId : Nat)
  | querySent (peerId : Nat)
  | responseReceived (peerId : Nat)
  | badPacketReceived (peerId : Nat)
  | reliableTransferFailed (peerId : Nat)
  | adjustQuality (peerId : Nat) (delta : Int16)
  deriving DecidableEq

namespace ProfileEvent

def operation : ProfileEvent → Operation
  | create peerId => .call (.create peerId)
  | erase peerId => .call (.erase peerId)
  | querySent peerId => .querySent peerId
  | responseReceived peerId => .call (.responseReceived peerId)
  | badPacketReceived peerId => .call (.badPacketReceived peerId)
  | reliableTransferFailed peerId => .call (.reliableTransferFailed peerId)
  | adjustQuality peerId delta => .call (.adjustQuality peerId delta.toInt)

def peer : ProfileEvent → Nat
  | create peerId | erase peerId | querySent peerId | responseReceived peerId
  | badPacketReceived peerId | reliableTransferFailed peerId | adjustQuality peerId _ => peerId

/-- By how much an event is to change the quality: it penalises below 0, and rewards above. -/
def change : ProfileEvent → Int
  | create _ | erase _ | querySent _ => 0
  | responseReceived _ => 1
  | badPacketReceived _ => -3
  | reliableTransferFailed _ => -2
  | adjustQuality _ delta => delta.toInt

end ProfileEvent

/-- An event and its status. -/
abbrev ProfileRecorded := ProfileEvent × Bool

/-- Runs of events; `none` once one of them has no result. -/
def events : Machine (Option PeerProfileIndex) ProfileEvent ProfileRecorded where
  step
    | none, _ => (none, [])
    | some m, event =>
      match m.perform event.operation with
      | none => (none, [])
      | some (status, m') => (some m', [(event, status)])

/-- The profile of a peer. -/
def profileOf (m : PeerProfileIndex) (peerId : Nat) : Option PeerProfile :=
  (m.profileIndex.find peerId).bind fun i => (m.profileArray i).profile

/-- How often an event was recorded since the peer was last created. -/
def countSince (peerId : Nat) (event : ProfileEvent) (history : List ProfileRecorded) : Nat :=
  history.foldl (fun count r =>
    if r = (.create peerId, true) then 0 else if r.1 = event then count + 1 else count) 0

/-- Every profile has the queries and the responses of its peer. -/
def Counted (history : List ProfileRecorded) (m : PeerProfileIndex) : Prop :=
  ∀ peerId profile, m.profileOf peerId = some profile →
    profile.queries = countSince peerId (.querySent peerId) history ∧
      profile.responses = countSince peerId (.responseReceived peerId) history

/-- An event has a result, the profiles have counted it, those of other peers are left alone, and a
penalty does not raise a quality, nor a reward lower one. -/
def Reflects (history : List ProfileRecorded) (s : Option PeerProfileIndex) (event : ProfileEvent) :
    Prop :=
  ∃ m status m', s = some m ∧ m.perform event.operation = some (status, m') ∧
    Counted (history ++ [(event, status)]) m' ∧
    (∀ peerId, peerId ≠ event.peer → m'.profileOf peerId = m.profileOf peerId) ∧
    ∀ peerId old new, m.profileOf peerId = some old → m'.profileOf peerId = some new →
      (event.change ≤ 0 → new.quality ≤ old.quality) ∧
        (0 ≤ event.change → old.quality ≤ new.quality)

/-- The relocation has a result; there is no response of a peer with a profile, no overflow of the
64 bits of the queries, and the quality stays within a `short`. -/
def EventFits (_ : List ProfileRecorded) (s : Option PeerProfileIndex) (event : ProfileEvent) :
    Prop :=
  ∃ m, s = some m ∧ (m.perform event.operation).isSome ∧
    ∀ profile, m.profileOf event.peer = some profile →
      (∀ peerId, event ≠ .responseReceived peerId) ∧
      (∀ peerId, event = .querySent peerId → profile.queries + 1 < 2 ^ 64) ∧
      -2 ^ 15 ≤ profile.quality + event.change ∧ profile.quality + event.change < 2 ^ 15

/-! ## Profiles and links -/

/-- The records of the peers are their own, and not free. -/
structure Indexed (m : PeerProfileIndex) : Prop where
  own : ∀ peerId i, m.profileIndex.find peerId = some i →
    ∃ profile, (m.profileArray i).profile = some profile ∧ profile.peerId = peerId
  used : ∀ peerId i, m.profileIndex.find peerId = some i → i < m.size ∧ i ∉ m.freeIndexList
  free : ∀ i ∈ m.freeIndexList, i < m.size
  nodup : m.freeIndexList.Nodup

variable {m m' : PeerProfileIndex} {peerId : Nat}

theorem indexed_new (reserve : Int) : Indexed (new reserve) :=
  ⟨nofun, nofun, fun _ hi => List.mem_range.mp hi, List.nodup_range⟩

/-- Two peers have two records. -/
theorem Indexed.inj (h : Indexed m) {p q i : Nat} (hp : m.profileIndex.find p = some i)
    (hq : m.profileIndex.find q = some i) : p = q := by
  obtain ⟨profile, hprofile, rfl⟩ := h.own p i hp
  obtain ⟨profile', hprofile', rfl⟩ := h.own q i hq
  rw [hprofile, Option.some.injEq] at hprofile'
  rw [hprofile']

theorem Indexed.profile_id (h : Indexed m) {profile : PeerProfile}
    (hprofile : m.profileOf peerId = some profile) : profile.peerId = peerId := by
  obtain ⟨i, hi, hread⟩ := Option.bind_eq_some_iff.mp hprofile
  obtain ⟨profile', hread', hid⟩ := h.own peerId i hi
  rw [hread, Option.some.injEq] at hread'
  rw [hread', hid]

theorem Rewired.profileOf (h : Rewired m m') (peerId : Nat) :
    m'.profileOf peerId = m.profileOf peerId := by
  unfold PeerProfileIndex.profileOf
  rw [h.index]
  exact congrArg _ (funext h.profile)

theorem Indexed.rewired (hi : Indexed m) (h : Rewired m m') : Indexed m' := by
  refine ⟨fun peerId i hf => ?_, fun peerId i hf => ?_, ?_, ?_⟩
  · rw [h.index] at hf
    rw [h.profile]
    exact hi.own peerId i hf
  · rw [h.index] at hf
    rw [h.size, h.free]
    exact hi.used peerId i hf
  · rw [h.free, h.size]
    exact hi.free
  · rw [h.free]
    exact hi.nodup

theorem Rewired.updateLink (h : Rewired m m') (i : Option Nat) {f : ProfileRecord → ProfileRecord}
    (hf : ∀ r, (f r).profile = r.profile) : Rewired m (m'.updateLink i f) := by
  cases i with
  | none => exact h
  | some i => exact h.update hf

/-- The ends and the base. -/
theorem Rewired.ends (h : Rewired m m') (highest lowest base : Option Nat) :
    Rewired m { m' with highestQualityIndex := highest, lowestQualityIndex := lowest,
                        baseIndex := base } :=
  ⟨h.profile, h.free, h.size, h.index, h.count⟩

theorem rewired_of_rebase {c nb : Nat} {value : Int} (h : m.rebase c value nb = some m') :
    Rewired m m' := by
  obtain ⟨_, -, h⟩ := Option.bind_eq_some_iff.mp h
  split at h
  · cases h
    exact (Rewired.refl m).ends _ _ _
  · cases h
    exact Rewired.refl m

theorem rewired_of_placeHighest {c n : Nat} {value : Int} {insertIndex : Option Nat}
    (h : m.placeHighest c value n insertIndex = some m') : Rewired m m' := by
  have hplaced : Rewired m ((m.update n fun r => { r with next := some c }).update c
      fun r => { r with next := none, prev := insertIndex }) := by
    refine .update (.update (.refl m) ?_) ?_ <;> exact fun _ => rfl
  unfold placeHighest at h
  dsimp only at h
  split at h
  · exact (hplaced.ends _ _ _).trans (rewired_of_rebase h)
  · cases h
    exact hplaced.ends _ _ _

theorem rewired_of_placeLowest {c p : Nat} {value : Int} {insertIndex : Option Nat}
    (h : m.placeLowest c value p insertIndex = some m') : Rewired m m' := by
  have hplaced : Rewired m ((m.update p fun r => { r with prev := some c }).update c
      fun r => { r with prev := none, next := insertIndex }) := by
    refine .update (.update (.refl m) ?_) ?_ <;> exact fun _ => rfl
  unfold placeLowest at h
  dsimp only at h
  split at h
  · exact (hplaced.ends _ _ _).trans (rewired_of_rebase h)
  · cases h
    exact hplaced.ends _ _ _

theorem rewired_of_placeBetween {c p n first second : Nat} {value : Int}
    (h : m.placeBetween c value p n first second = some m') : Rewired m m' := by
  have hplaced : Rewired m (((m.update n fun r => { r with prev := some c }).update p
      fun r => { r with next := some c }).update c
      fun r => { r with next := some n, prev := some p }) := by
    refine .update (.update (.update (.refl m) ?_) ?_) ?_ <;> exact fun _ => rfl
  unfold placeBetween at h
  dsimp only at h
  split at h
  · exact hplaced.trans (rewired_of_rebase h)
  split at h
  · exact hplaced.trans (rewired_of_rebase h)
  · cases h
    exact hplaced

theorem rewired_of_moveHigher {c n : Nat} {value : Int} (h : m.moveHigher c value n = some m') :
    Rewired m m' := by
  unfold moveHigher at h
  split at h
  · exact rewired_of_placeHighest h
  simp only [Option.bind_eq_bind, Option.bind_eq_some_iff] at h
  obtain ⟨⟨insertIndex, nextIndex⟩, -, h⟩ := h
  dsimp only at h
  split at h
  · exact rewired_of_placeHighest h
  · rw [Option.bind_eq_some_iff] at h
    obtain ⟨_, -, h⟩ := h
    exact rewired_of_placeBetween h

theorem rewired_of_moveLower {c p : Nat} {value : Int} (h : m.moveLower c value p = some m') :
    Rewired m m' := by
  unfold moveLower at h
  split at h
  · exact rewired_of_placeLowest h
  simp only [Option.bind_eq_bind, Option.bind_eq_some_iff] at h
  obtain ⟨⟨insertIndex, prevIndex⟩, -, h⟩ := h
  dsimp only at h
  split at h
  · exact rewired_of_placeLowest h
  · rw [Option.bind_eq_some_iff] at h
    obtain ⟨_, -, h⟩ := h
    exact rewired_of_placeBetween h

/-- A relocation leaves the profiles alone. -/
theorem rewired_of_relocate {i : Nat} {value : Int} (h : m.relocate i value = some m') :
    Rewired m m' := by
  unfold relocate at h
  simp only [Option.bind_eq_bind, Option.bind_eq_some_iff] at h
  obtain ⟨_, -, _, -, h⟩ := h
  split at h
  · cases h
    exact Rewired.refl m
  split at h
  · obtain ⟨_, -, h⟩ := Option.bind_eq_some_iff.mp h
    exact (rewired_unlink m i).trans (rewired_of_moveHigher h)
  · obtain ⟨_, -, h⟩ := Option.bind_eq_some_iff.mp h
    exact (rewired_unlink m i).trans (rewired_of_moveLower h)

/-! ## What an event does to the profiles -/

/-- What a call does to the profile of its peer. -/
def applied : ProfileEvent → PeerProfile → PeerProfile
  | .create _, profile | .erase _, profile => profile
  | .querySent _, profile => profile.incrTotalQueries
  | .responseReceived _, profile => profile.incrTotalQueries.modifyRelativeQuality 1
  | .badPacketReceived _, profile => profile.modifyRelativeQuality (-3)
  | .reliableTransferFailed _, profile => profile.modifyRelativeQuality (-2)
  | .adjustQuality _ delta, profile => profile.modifyRelativeQuality delta.toInt

structure Effect (event : ProfileEvent) (status : Bool) (m m' : PeerProfileIndex) : Prop where
  indexed : Indexed m'
  other : ∀ peerId, peerId ≠ event.peer → m'.profileOf peerId = m.profileOf peerId
  known : ∀ old, m.profileOf event.peer = some old →
    m'.profileOf event.peer = some (applied event old) ∨
      event = .erase event.peer ∧ m'.profileOf event.peer = none
  created : m.profileOf event.peer = none → ∀ new, m'.profileOf event.peer = some new →
    event = .create event.peer ∧ new = PeerProfile.new event.peer
  status : event = .create event.peer → status = (m.profileOf event.peer).isNone

/-- A call for a peer without a profile does nothing. -/
theorem effect_of_none (hi : Indexed m) {event : ProfileEvent} {status : Bool}
    (hnone : m.profileOf event.peer = none) (hcreate : event ≠ .create event.peer) :
    Effect event status m m := by
  refine ⟨hi, fun _ _ => rfl, fun old hold => ?_, fun _ new hnew => ?_, fun h => absurd h hcreate⟩
  · rw [hnone] at hold
    cases hold
  · rw [hnone] at hnew
    cases hnew

theorem profileOf_of_find (hi : Indexed m) {i : Nat} (hf : m.profileIndex.find peerId = some i) :
    ∃ profile, m.profileOf peerId = some profile ∧ (m.profileArray i).profile = some profile := by
  obtain ⟨profile, hread, -⟩ := hi.own peerId i hf
  exact ⟨profile, by rw [profileOf, hf, Option.bind_some, hread], hread⟩

theorem profileOf_of_find_none (hf : m.profileIndex.find peerId = none) :
    m.profileOf peerId = none := by
  rw [profileOf, hf]
  rfl

/-- The profile of a peer is written. -/
theorem Indexed.update (hi : Indexed m) {i : Nat} (hf : m.profileIndex.find peerId = some i)
    {new : PeerProfile} (hid : new.peerId = peerId) :
    Indexed (m.update i fun r => { r with profile := some new }) ∧
      (m.update i fun r => { r with profile := some new }).profileOf peerId = some new ∧
      ∀ other, other ≠ peerId →
        (m.update i fun r => { r with profile := some new }).profileOf other =
          m.profileOf other := by
  have hother : ∀ other j, other ≠ peerId → m.profileIndex.find other = some j →
      (m.update i fun r => { r with profile := some new }).profileArray j = m.profileArray j := by
    intro other j hne hj
    rw [update_array, if_neg]
    rintro rfl
    exact hne (hi.inj hj hf)
  refine ⟨⟨fun other j hj => ?_, hi.used, hi.free, hi.nodup⟩, ?_, fun other hne => ?_⟩
  · by_cases hne : other = peerId
    · subst hne
      rw [show m.profileIndex.find other = some j from hj, Option.some.injEq] at hf
      subst hf
      exact ⟨new, by rw [update_array, if_pos rfl], hid⟩
    · rw [hother other j hne hj]
      exact hi.own other j hj
  · show (m.profileIndex.find peerId).bind _ = _
    rw [hf, Option.bind_some, update_array, if_pos rfl]
  · show (m.profileIndex.find other).bind _ = (m.profileIndex.find other).bind _
    cases hj : m.profileIndex.find other with
    | none => rfl
    | some j => rw [Option.bind_some, Option.bind_some, hother other j hne hj]

/-- A call that writes the profile of a peer, and may link its record elsewhere. -/
theorem effect_of_update (hi : Indexed m) {event : ProfileEvent} {status : Bool} {i : Nat}
    {profile : PeerProfile} (hf : m.profileIndex.find event.peer = some i)
    (hread : (m.profileArray i).profile = some profile)
    (hid : (applied event profile).peerId = profile.peerId)
    (hrewired : Rewired (m.update i fun r => { r with profile := some (applied event profile) }) m')
    (hcreate : event ≠ .create event.peer) : Effect event status m m' := by
  have hof : m.profileOf event.peer = some profile := by
    rw [profileOf, hf, Option.bind_some, hread]
  obtain ⟨hindexed, hself, hother⟩ := hi.update hf (hid.trans (hi.profile_id hof))
  refine ⟨hindexed.rewired hrewired, fun peerId hne => ?_, fun old hold => .inl ?_,
    fun hnone => ?_, fun h => absurd h hcreate⟩
  · rw [hrewired.profileOf, hother peerId hne]
  · rw [hof, Option.some.injEq] at hold
    rw [hrewired.profileOf, hself, hold]
  · rw [hof] at hnone
    cases hnone

theorem effect_modify (hi : Indexed m) {event : ProfileEvent} {status : Bool}
    {f : PeerProfile → PeerProfile} {delta : Int}
    (happlied : ∀ profile, applied event profile = (f profile).modifyRelativeQuality delta)
    (hkeep : ∀ profile, (f profile).peerId = profile.peerId)
    (hcreate : event ≠ .create event.peer)
    (h : m.modify event.peer f delta = some (status, m')) : Effect event status m m' := by
  unfold modify at h
  cases hf : m.profileIndex.find event.peer with
  | none =>
    rw [hf] at h
    cases h
    exact effect_of_none hi (profileOf_of_find_none hf) hcreate
  | some i =>
    obtain ⟨profile, hof, hread⟩ := profileOf_of_find hi hf
    rw [hf] at h
    dsimp only at h
    rw [hread, Option.bind_eq_bind, Option.bind_some] at h
    obtain ⟨relocated, hrelocate, heq⟩ := Option.bind_eq_some_iff.mp h
    cases heq
    refine effect_of_update hi hf hread ?_ ?_ hcreate
    · rw [happlied]
      exact hkeep profile
    · rw [happlied]
      exact rewired_of_relocate hrelocate

theorem effect_querySent (hi : Indexed m) {status : Bool}
    (h : m.querySent peerId = some (status, m')) : Effect (.querySent peerId) status m m' := by
  unfold querySent at h
  cases hf : m.profileIndex.find peerId with
  | none =>
    rw [hf] at h
    cases h
    exact effect_of_none hi (profileOf_of_find_none hf) nofun
  | some i =>
    obtain ⟨profile, hof, hread⟩ := profileOf_of_find hi hf
    rw [hf] at h
    dsimp only at h
    rw [hread, Option.bind_eq_bind, Option.bind_some] at h
    cases h
    exact effect_of_update hi hf hread rfl (Rewired.refl _) nofun

theorem effect_erase (hi : Indexed m) (peerId : Nat) :
    Effect (.erase peerId) (m.erase peerId).1 m (m.erase peerId).2 := by
  unfold erase
  by_cases hzero : m.numRecords = 0
  · rw [if_pos hzero]
    exact ⟨hi, fun _ _ => rfl, fun old hold => .inl hold,
      fun hnone new hnew => absurd (hnone.symm.trans hnew) nofun, nofun⟩
  rw [if_neg hzero]
  cases hf : m.profileIndex.find peerId with
  | none => exact effect_of_none hi (profileOf_of_find_none hf) nofun
  | some i =>
    have hrewired := rewired_unlink { m with profileIndex := m.profileIndex.erase peerId } i
    dsimp only
    generalize { m with profileIndex := m.profileIndex.erase peerId }.unlink i = unlinked
      at hrewired ⊢
    obtain ⟨hprofile, hfree, hsize, hindex, -⟩ := hrewired
    dsimp only at hprofile hfree hsize hindex
    -- The others keep their records, which are not the one that is free now.
    have hfind : ∀ other, unlinked.profileIndex.find other =
        if other = peerId then none else m.profileIndex.find other := fun other => by
      rw [hindex, UMap.find_erase]
    obtain ⟨hlt, hused⟩ := hi.used peerId i hf
    refine ⟨⟨fun other j hj => ?_, fun other j hj => ?_, fun j hj => ?_, ?_⟩,
      fun other hne => ?_, fun old _ => .inr ⟨rfl, ?_⟩, fun _ new hnew => ?_, nofun⟩
    · replace hj := (hfind other).symm.trans hj
      split at hj
      · cases hj
      · dsimp only
        rw [hprofile]
        exact hi.own other j hj
    · replace hj := (hfind other).symm.trans hj
      split at hj
      · cases hj
      · next hne =>
        obtain ⟨hjlt, hjused⟩ := hi.used other j hj
        dsimp only
        rw [hfree, hsize]
        refine ⟨hjlt, fun hmem => ?_⟩
        rcases List.mem_append.mp hmem with hold | hnew
        · exact hjused hold
        · rw [List.mem_singleton.mp hnew] at hj
          exact hne (hi.inj hj hf)
    · dsimp only at hj ⊢
      rw [hfree] at hj
      rw [hsize]
      rcases List.mem_append.mp hj with hold | hnew
      · exact hi.free j hold
      · rw [List.mem_singleton.mp hnew]
        exact hlt
    · dsimp only
      rw [hfree]
      refine List.nodup_append.mpr ⟨hi.nodup, List.nodup_singleton i, fun a ha b hb => ?_⟩
      rw [List.mem_singleton.mp hb]
      rintro rfl
      exact hused ha
    · show (unlinked.profileIndex.find other).bind _ = _
      rw [hfind, if_neg (show other ≠ peerId from hne)]
      exact congrArg _ (funext hprofile)
    · show (unlinked.profileIndex.find peerId).bind _ = _
      rw [hfind, if_pos rfl]
      rfl
    · replace hnew : (unlinked.profileIndex.find peerId).bind _ = _ := hnew
      rw [hfind, if_pos rfl] at hnew
      cases hnew

/-- A peer gets the record `c`, which was free. -/
structure Takes (peerId c : Nat) (m m' : PeerProfileIndex) : Prop where
  profile : ∀ i, (m'.profileArray i).profile =
    if i = c then some (PeerProfile.new peerId) else (m.profileArray i).profile
  free : m.freeIndexList = c :: m'.freeIndexList
  size : m'.size = m.size
  index : m'.profileIndex = m.profileIndex.emplace peerId c

theorem effect_of_takes (hi : Indexed m) {c : Nat} (hf : m.profileIndex.find peerId = none)
    (ht : Takes peerId c m m') : Effect (.create peerId) true m m' := by
  have hfind : ∀ other, m'.profileIndex.find other =
      if other = peerId then some c else m.profileIndex.find other := fun other => by
    rw [ht.index, UMap.find_emplace, hf, Option.getD_none]
  have hc : c ∈ m.freeIndexList := by rw [ht.free]; exact List.mem_cons_self
  have hrest : ∀ i ∈ m'.freeIndexList, i ∈ m.freeIndexList := fun i h => by
    rw [ht.free]
    exact List.mem_cons_of_mem _ h
  have hnodup := hi.nodup
  rw [ht.free, List.nodup_cons] at hnodup
  have hne : ∀ other j, m.profileIndex.find other = some j → j ≠ c := by
    rintro other j hj rfl
    exact (hi.used other j hj).2 hc
  have hnone := profileOf_of_find_none hf
  refine ⟨⟨fun other j hj => ?_, fun other j hj => ?_, fun j hj => ?_, hnodup.2⟩,
    fun other hother => ?_, fun old hold => ?_, fun _ new hnew => ⟨rfl, ?_⟩, fun _ => ?_⟩
  · rw [hfind] at hj
    rw [ht.profile]
    split at hj
    · next hother =>
      rw [if_pos (Option.some.inj hj).symm, hother]
      exact ⟨_, rfl, rfl⟩
    · rw [if_neg (hne other j hj)]
      exact hi.own other j hj
  · rw [hfind] at hj
    rw [ht.size]
    split at hj
    · cases hj
      exact ⟨hi.free c hc, hnodup.1⟩
    · exact ⟨(hi.used other j hj).1, fun hmem => (hi.used other j hj).2 (hrest j hmem)⟩
  · rw [ht.size]
    exact hi.free j (hrest j hj)
  · rw [profileOf, hfind, if_neg (show other ≠ peerId from hother)]
    cases hj : m.profileIndex.find other with
    | none => rw [profileOf_of_find_none hj]; rfl
    | some j => rw [profileOf, hj, Option.bind_some, Option.bind_some, ht.profile,
        if_neg (hne other j hj)]
  · rw [show m.profileOf (ProfileEvent.create peerId).peer = none from hnone] at hold
    cases hold
  · replace hnew : m'.profileOf peerId = some new := hnew
    rw [profileOf, hfind, if_pos rfl, Option.bind_some, ht.profile, if_pos rfl] at hnew
    exact (Option.some.inj hnew).symm
  · rw [show m.profileOf (ProfileEvent.create peerId).peer = none from hnone]
    rfl

theorem takes_taken {c : Nat} {free : List Nat} (hfree : m.freeIndexList = c :: free) :
    Takes peerId c m (m.taken peerId c free) :=
  ⟨fun i => by rw [taken_array], hfree, rfl, rfl⟩

/-- What is linked or counted otherwise has the profiles. -/
theorem Takes.linked {c : Nat} {linked : PeerProfileIndex} (h : Takes peerId c m m')
    (hprofile : ∀ i, (linked.profileArray i).profile = (m'.profileArray i).profile)
    (hfree : linked.freeIndexList = m'.freeIndexList) (hsize : linked.size = m'.size)
    (hindex : linked.profileIndex = m'.profileIndex) : Takes peerId c m linked :=
  ⟨fun i => by rw [hprofile, h.profile], by rw [hfree, h.free], by rw [hsize, h.size],
    by rw [hindex, h.index]⟩

theorem profile_linkFirst (m : PeerProfileIndex) (c i : Nat) :
    ((m.linkFirst c).profileArray i).profile = (m.profileArray i).profile := by
  unfold linkFirst
  dsimp only
  rw [update_array]
  split <;> rfl

theorem rewired_linkAfter (c b : Nat) : Rewired m (m.linkAfter c b) := by
  refine Rewired.ends (.update (.updateLink (.update (.refl m) ?_) _ ?_) ?_) _ _ _ <;>
    exact fun _ => rfl

theorem rewired_linkBefore (c b : Nat) : Rewired m (m.linkBefore c b) := by
  refine Rewired.ends (.update (.updateLink (.update (.refl m) ?_) _ ?_) ?_) _ _ _ <;>
    exact fun _ => rfl

/-- The array is doubled, and the records in use are kept. -/
theorem indexed_resize (hi : Indexed m) : Indexed (m.resize (m.size * 2)) ∧
    ∀ peerId, (m.resize (m.size * 2)).profileOf peerId = m.profileOf peerId := by
  have harray : ∀ other i, m.profileIndex.find other = some i →
      (m.resize (m.size * 2)).profileArray i = m.profileArray i := fun other i hf =>
    if_pos (hi.used other i hf).1
  refine ⟨⟨fun other i hf => ?_, fun other i hf => ?_, fun i hmem => ?_, List.nodup_range'⟩,
    fun other => ?_⟩
  · rw [harray other i hf]
    exact hi.own other i hf
  · have hlt := (hi.used other i hf).1
    refine ⟨by show i < m.size * 2; omega, fun hmem => ?_⟩
    have hge := (List.mem_range'_1.mp hmem).1
    omega
  · have hbound := (List.mem_range'_1.mp hmem).2
    show i < m.size * 2
    omega
  · show (m.profileIndex.find other).bind _ = (m.profileIndex.find other).bind _
    cases hf : m.profileIndex.find other with
    | none => rfl
    | some i => rw [Option.bind_some, Option.bind_some, harray other i hf]

theorem effect_create (hi : Indexed m) {status : Bool}
    (h : m.create peerId = some (status, m')) : Effect (.create peerId) status m m' := by
  unfold create at h
  cases hf : m.profileIndex.find peerId with
  | some i =>
    rw [hf, if_pos Option.isSome_some] at h
    cases h
    obtain ⟨profile, hof, -⟩ := profileOf_of_find hi hf
    refine ⟨hi, fun _ _ => rfl, fun old hold => .inl hold, fun hnone => ?_, fun _ => ?_⟩
    · exact absurd (hnone.symm.trans hof) nofun
    · rw [show m.profileOf (ProfileEvent.create peerId).peer = some profile from hof]
      rfl
  | none =>
    rw [hf, Option.isSome_none, if_neg Bool.false_ne_true] at h
    obtain ⟨m₀, hm₀, hi₀, hsame, hindex⟩ : ∃ m₀,
        m₀ = (if m.numRecords ≥ m.size then m.resize (m.size * 2) else m) ∧ Indexed m₀ ∧
          (∀ other, m₀.profileOf other = m.profileOf other) ∧
          m₀.profileIndex = m.profileIndex := by
      by_cases hfull : m.numRecords ≥ m.size
      · exact ⟨_, rfl, by rw [if_pos hfull]; exact (indexed_resize hi).1,
          by rw [if_pos hfull]; exact (indexed_resize hi).2, by rw [if_pos hfull]; rfl⟩
      · exact ⟨_, rfl, by rw [if_neg hfull]; exact hi, by rw [if_neg hfull]; exact fun _ => rfl,
          by rw [if_neg hfull]⟩
    rw [← hm₀] at h
    have htakes : status = true ∧ ∃ c, Takes peerId c m₀ m' := by
      dsimp only at h
      cases hfree : m₀.freeIndexList with
      | nil =>
        rw [hfree] at h
        cases h
      | cons c free =>
        have ht : Takes peerId c m₀ (m₀.taken peerId c free) := takes_taken hfree
        rw [hfree] at h
        dsimp only at h
        split at h
        · cases h
          exact ⟨rfl, c, ht.linked (profile_linkFirst _ c) rfl rfl rfl⟩
        · simp only [Option.bind_eq_bind, Option.bind_eq_some_iff] at h
          obtain ⟨b, -, quality, -, h⟩ := h
          cases h
          refine ⟨rfl, c, ?_⟩
          split
          · obtain ⟨hprofile, hfree', hsize, hindex', -⟩ := rewired_linkAfter
              (m := m₀.taken peerId c free) c b
            exact ht.linked hprofile hfree' hsize hindex'
          · obtain ⟨hprofile, hfree', hsize, hindex', -⟩ := rewired_linkBefore
              (m := m₀.taken peerId c free) c b
            exact ht.linked hprofile hfree' hsize hindex'
    obtain ⟨rfl, c, ht⟩ := htakes
    have heffect := effect_of_takes hi₀ (hindex ▸ hf) ht
    refine ⟨heffect.indexed, fun other hne => ?_, fun old hold => ?_, fun hnone => ?_, fun he => ?_⟩
    · rw [heffect.other other hne, hsame]
    · exact heffect.known old ((hsame _).trans hold)
    · exact heffect.created ((hsame _).trans hnone)
    · rw [heffect.status he, hsame]

theorem perform_effect (hi : Indexed m) {event : ProfileEvent} {status : Bool}
    (h : m.perform event.operation = some (status, m')) : Effect event status m m' := by
  cases event with
  | create peerId => exact effect_create hi h
  | erase peerId =>
    have heq := Option.some.inj h
    have heffect := effect_erase hi peerId
    rw [heq] at heffect
    exact heffect
  | querySent peerId => exact effect_querySent hi h
  | responseReceived peerId => exact effect_modify hi (fun _ => rfl) (fun _ => rfl) nofun h
  | badPacketReceived peerId =>
    exact effect_modify hi (f := id) (fun _ => rfl) (fun _ => rfl) nofun h
  | reliableTransferFailed peerId =>
    exact effect_modify hi (f := id) (fun _ => rfl) (fun _ => rfl) nofun h
  | adjustQuality peerId delta =>
    exact effect_modify hi (f := id) (fun _ => rfl) (fun _ => rfl) nofun h

/-! ## Counts -/

theorem countSince_concat (peerId : Nat) (event : ProfileEvent) (history : List ProfileRecorded)
    (r : ProfileRecorded) : countSince peerId event (history ++ [r]) =
      if r = (.create peerId, true) then 0
      else if r.1 = event then countSince peerId event history + 1
      else countSince peerId event history := by
  rw [countSince, List.foldl_concat]
  rfl

/-- An event that is another, and does not create the peer, changes no count. -/
theorem countSince_of_ne {peerId : Nat} {counted event : ProfileEvent} {status : Bool}
    (history : List ProfileRecorded) (hne : event ≠ counted)
    (hcreate : (event, status) ≠ (.create peerId, true)) :
    countSince peerId counted (history ++ [(event, status)]) =
      countSince peerId counted history := by
  rw [countSince_concat, if_neg hcreate, if_neg hne]

/-! ## Qualities -/

theorem toShort_spec (value : Int) : -2 ^ 15 ≤ toShort value ∧ toShort value < 2 ^ 15 ∧
    (toShort value - value) % 2 ^ 16 = 0 := by
  unfold toShort Int.bmod
  dsimp only
  split <;> omega

/-- A change goes the right way exactly if it does not go around. -/
theorem toShort_iff {quality change : Int} (hquality : -2 ^ 15 ≤ quality ∧ quality < 2 ^ 15)
    (hchange : -2 ^ 15 ≤ change ∧ change < 2 ^ 15) :
    ((change ≤ 0 → toShort (quality + change) ≤ quality) ∧
      (0 ≤ change → quality ≤ toShort (quality + change))) ↔
      -2 ^ 15 ≤ quality + change ∧ quality + change < 2 ^ 15 := by
  have hspec := toShort_spec (quality + change)
  omega

theorem change_bounds (event : ProfileEvent) : -2 ^ 15 ≤ event.change ∧ event.change < 2 ^ 15 := by
  cases event with
  | adjustQuality peerId delta => exact ⟨delta.le_toInt, delta.toInt_lt⟩
  | _ =>
    simp only [ProfileEvent.change]
    omega

theorem quality_applied (event : ProfileEvent) {profile : PeerProfile}
    (hquality : -2 ^ 15 ≤ profile.quality ∧ profile.quality < 2 ^ 15) :
    (applied event profile).quality = toShort (profile.quality + event.change) := by
  have hsame : toShort (profile.quality + 0) = profile.quality := by
    have hspec := toShort_spec (profile.quality + 0)
    omega
  cases event with
  | create | erase | querySent => exact hsame.symm
  | _ => rfl

/-! ## Runs -/

/-- There is an index, its profiles have counted, and their qualities are in a `short`. -/
def Recorded (history : List ProfileRecorded) (s : Option PeerProfileIndex) : Prop :=
  ∃ m, s = some m ∧ Indexed m ∧ Counted history m ∧
    ∀ peerId profile, m.profileOf peerId = some profile →
      -2 ^ 15 ≤ profile.quality ∧ profile.quality < 2 ^ 15

theorem counted_new (reserve : Int) : Counted [] (new reserve) := nofun

/-- The peers that an event is not about keep their counts. -/
theorem Counted.other {history : List ProfileRecorded} {event : ProfileEvent} {status : Bool}
    (h : Counted history m) (heffect : Effect event status m m') {peerId : Nat}
    (hne : peerId ≠ event.peer) {profile : PeerProfile}
    (hprofile : m'.profileOf peerId = some profile) :
    profile.queries = countSince peerId (.querySent peerId) (history ++ [(event, status)]) ∧
      profile.responses =
        countSince peerId (.responseReceived peerId) (history ++ [(event, status)]) := by
  have hevent : ∀ counted : ProfileEvent, counted.peer = peerId → event ≠ counted := by
    rintro counted rfl rfl
    exact hne rfl
  have hcreate : (event, status) ≠ (.create peerId, true) := fun heq =>
    hevent _ rfl (congrArg Prod.fst heq)
  rw [countSince_of_ne history (hevent _ rfl) hcreate,
    countSince_of_ne history (hevent _ rfl) hcreate]
  exact h peerId profile ((heffect.other peerId hne).symm.trans hprofile)

/-- An event for a peer with a profile is counted exactly if it is no response, and no query too
many. -/
theorem Counted.known_iff {history : List ProfileRecorded} {event : ProfileEvent} {status : Bool}
    (h : Counted history m) (heffect : Effect event status m m') {peerId : Nat}
    (hpeer : event.peer = peerId) {old : PeerProfile} (hold : m.profileOf peerId = some old) :
    ((applied event old).queries =
        countSince peerId (.querySent peerId) (history ++ [(event, status)]) ∧
      (applied event old).responses =
        countSince peerId (.responseReceived peerId) (history ++ [(event, status)])) ↔
      (∀ peerId, event ≠ .responseReceived peerId) ∧
        ∀ peerId, event = .querySent peerId → old.queries + 1 < 2 ^ 64 := by
  obtain ⟨hqueries, hresponses⟩ := h _ _ hold
  have hcreate : (event, status) ≠ (.create peerId, true) := by
    intro heq
    have hstatus := heffect.status (by rw [hpeer]; exact congrArg Prod.fst heq)
    rw [hpeer, hold, show status = true from congrArg Prod.snd heq] at hstatus
    cases hstatus
  rw [countSince_concat, countSince_concat, if_neg hcreate, if_neg hcreate]
  cases event with
  | querySent q =>
    obtain rfl : q = peerId := hpeer
    rw [if_pos rfl, if_neg nofun, ← hqueries, ← hresponses]
    show (old.queries + 1) % 2 ^ 64 = old.queries + 1 ∧ old.responses = old.responses ↔ _
    constructor
    · rintro ⟨hmod, -⟩
      exact ⟨nofun, fun _ _ => by omega⟩
    · rintro ⟨-, hlt⟩
      exact ⟨Nat.mod_eq_of_lt (hlt q rfl), rfl⟩
  | responseReceived q =>
    obtain rfl : q = peerId := hpeer
    -- The response is counted as a query.
    rw [if_neg nofun, if_pos rfl, ← hresponses]
    exact iff_of_false (fun h => Nat.succ_ne_self _ h.2.symm) fun h => h.1 q rfl
  | _ =>
    rw [if_neg nofun, if_neg nofun]
    exact iff_of_true ⟨hqueries, hresponses⟩ ⟨nofun, nofun⟩

/-- What an event does is right exactly if it fits. -/
theorem reflects_iff_fits {history : List ProfileRecorded} {s : Option PeerProfileIndex}
    (h : Recorded history s) (event : ProfileEvent) :
    Reflects history s event ↔ EventFits history s event := by
  obtain ⟨m, rfl, hi, hcounted, hbounds⟩ := h
  constructor
  · rintro ⟨_, status, m', hm, hperform, hcounted', -, hquality⟩
    cases hm
    have heffect := perform_effect hi hperform
    refine ⟨m, rfl, by rw [hperform]; rfl, fun old hold => ?_⟩
    rcases heffect.known old hold with hnew | ⟨herase, -⟩
    · obtain ⟨hresponse, hquery⟩ := (hcounted.known_iff heffect rfl hold).mp (hcounted' _ _ hnew)
      have hway := hquality _ _ _ hold hnew
      rw [quality_applied event (hbounds _ _ hold)] at hway
      exact ⟨hresponse, hquery, (toShort_iff (hbounds _ _ hold) (change_bounds event)).mp hway⟩
    · rw [herase]
      refine ⟨nofun, nofun, ?_⟩
      have := hbounds _ _ hold
      simp only [ProfileEvent.change]
      omega
  · rintro ⟨_, hm, hsome, hfits⟩
    cases hm
    obtain ⟨⟨status, m'⟩, hperform⟩ := Option.isSome_iff_exists.mp hsome
    have heffect := perform_effect hi hperform
    refine ⟨m, status, m', rfl, hperform, fun peerId new hnew => ?_, heffect.other,
      fun peerId old new hold hnew => ?_⟩
    · by_cases hne : peerId = event.peer
      · subst hne
        cases hold : m.profileOf event.peer with
        | none =>
          obtain ⟨hcreate, rfl⟩ := heffect.created hold new hnew
          have hstatus := heffect.status hcreate
          rw [hold] at hstatus
          have hrecord : (event, status) = (.create event.peer, true) := by
            rw [← hcreate, hstatus]
            rfl
          rw [countSince_concat, countSince_concat, if_pos hrecord, if_pos hrecord]
          exact ⟨rfl, rfl⟩
        | some old =>
          obtain ⟨hresponse, hquery, -⟩ := hfits old hold
          rcases heffect.known old hold with happlied | ⟨-, hnone⟩
          · rw [happlied, Option.some.injEq] at hnew
            subst hnew
            exact (hcounted.known_iff heffect rfl hold).mpr ⟨hresponse, hquery⟩
          · rw [hnone] at hnew
            cases hnew
      · exact hcounted.other heffect hne hnew
    · by_cases hne : peerId = event.peer
      · subst hne
        rcases heffect.known old hold with happlied | ⟨-, hnone⟩
        · rw [happlied, Option.some.injEq] at hnew
          rw [← hnew, quality_applied event (hbounds _ _ hold)]
          exact (toShort_iff (hbounds _ _ hold) (change_bounds event)).mpr (hfits old hold).2.2
        · rw [hnone] at hnew
          cases hnew
      · rw [heffect.other peerId hne, hold, Option.some.injEq] at hnew
        rw [hnew]
        exact ⟨fun _ => Int.le_refl _, fun _ => Int.le_refl _⟩

theorem recorded_step {history : List ProfileRecorded} {s : Option PeerProfileIndex}
    (h : Recorded history s) {event : ProfileEvent} (hfits : EventFits history s event) :
    Recorded (history ++ (events.step s event).2) (events.step s event).1 := by
  obtain ⟨m, status, m', rfl, hperform, hcounted, -, -⟩ := (reflects_iff_fits h event).mpr hfits
  obtain ⟨_, hm, hi, -, hbounds⟩ := h
  cases hm
  have heffect := perform_effect hi hperform
  have hstep : events.step (some m) event = (some m', [(event, status)]) := by
    simp only [events, hperform]
  rw [hstep]
  refine ⟨m', rfl, heffect.indexed, hcounted, fun peerId new hnew => ?_⟩
  by_cases hne : peerId = event.peer
  · subst hne
    cases hold : m.profileOf event.peer with
    | none =>
      obtain ⟨-, rfl⟩ := heffect.created hold new hnew
      show -2 ^ 15 ≤ (0 : Int) ∧ (0 : Int) < 2 ^ 15
      decide
    | some old =>
      rcases heffect.known old hold with happlied | ⟨-, hnone⟩
      · rw [happlied, Option.some.injEq] at hnew
        rw [← hnew, quality_applied event (hbounds _ _ hold)]
        have hspec := toShort_spec (old.quality + event.change)
        exact ⟨hspec.1, hspec.2.1⟩
      · rw [hnone] at hnew
        cases hnew
  · exact hbounds peerId new ((heffect.other peerId hne).symm.trans hnew)

/-- The profiles of a run say what happened exactly if its events fit. -/
theorem along_reflects_iff_fits (reserve : Int) (run : List ProfileEvent) :
    events.Along Reflects [] (some (new reserve)) run ↔
      events.Along EventFits [] (some (new reserve)) run :=
  Machine.along_congr (I := Recorded) (fun _ _ _ h hfits => recorded_step h hfits)
    (fun _ _ event h => reflects_iff_fits h event)
    ⟨new reserve, rfl, indexed_new reserve, counted_new reserve, nofun⟩

/-- A response is counted as a query. -/
theorem response_not_reflects :
    ¬ events.Along Reflects [] (some (new 128)) [.create 1, .responseReceived 1] := by
  rintro ⟨hcreate, hresponse, -⟩
  have hnew : Recorded [] (some (new 128)) :=
    ⟨new 128, rfl, indexed_new 128, counted_new 128, nofun⟩
  have hcreated := recorded_step hnew ((reflects_iff_fits hnew _).mp hcreate)
  obtain ⟨m, hm, -, hfits⟩ := (reflects_iff_fits hcreated _).mp hresponse
  have hprofile : (events.step (some (new 128)) (.create 1)).1.bind (profileOf · 1) =
      some (PeerProfile.new 1) := rfl
  rw [hm] at hprofile
  exact (hfits _ hprofile).1 1 rfl

end Alpine.PeerProfileIndex
