import Alpine.Protocol.ProfileOrder
import Alpine.Protocol.Disconnect

/-!
# What is kept of a registered peer

Three registries should agree on a peer: the peer information, the base profiles and the default
group. The machine here runs any sequence of registrations and closed connections. `Registered` ties
its states to the history: a peer has its information and its base profile from its first
registration on, and the default group never has one. A connection that closes takes nothing away,
so a peer's second registration is refused, and `Consistent` fails for it as it does for the first
(`along_consistent_iff`).
-/

namespace Alpine

open Lib

namespace PeerProfileIndex

/-- In order, and all of the quality a profile starts with. -/
structure Flat (m : PeerProfileIndex) (l : List Nat) : Prop where
  kept : Kept m l
  zero : ∀ i ∈ l, m.quality i = 0

theorem flat_new (reserve : Int) : Flat (new reserve) [] := ⟨kept_new reserve, (by simp)⟩

theorem Flat.create {m : PeerProfileIndex} {l : List Nat} (hf : Flat m l) {peerId : Nat}
    (hfind : m.profileIndex.find peerId = none) :
    ∃ m' l', m.create peerId = some (true, m') ∧ Flat m' l' ∧
      ∀ p, (m'.profileIndex.find p).isSome ↔ p = peerId ∨ (m.profileIndex.find p).isSome := by
  obtain ⟨m₀, m', c, l₁, l₂, hcreate, rfl, hk₀, hindex, hquality, hi, -⟩ := hf.kept.create hfind
  have hzero : ∀ i ∈ l₁ ++ l₂, m₀.quality i = 0 := fun i hmem => by
    rw [hquality i hmem]
    exact hf.zero i hmem
  have hkept : Kept m' (l₁ ++ c :: l₂) := by
    refine hk₀.inserted (hindex ▸ hfind) hi (fun x hx => ?_) fun y hy => ?_
    · exact Int.le_of_eq (hzero x (List.mem_append_left _ hx))
    · exact Int.le_of_eq (hzero y (List.mem_append_right _ hy)).symm
  refine ⟨m', _, hcreate, ⟨hkept, fun i hmem => ?_⟩, fun p => ?_⟩
  · rw [hi.placed.quality]
    split
    · rfl
    · next hne =>
      refine hzero i ?_
      rcases List.mem_append.mp hmem with h | h
      · exact List.mem_append_left _ h
      · exact List.mem_append_right _ ((List.mem_cons.mp h).resolve_left hne)
  · rw [hi.index, UMap.find_emplace, hindex]
    by_cases h : p = peerId
    · simp [h]
    · simp [h]

theorem create_duplicate {m : PeerProfileIndex} {peerId : Nat}
    (hfind : (m.profileIndex.find peerId).isSome) : m.create peerId = some (false, m) := by
  unfold PeerProfileIndex.create
  rw [if_pos hfind]

end PeerProfileIndex

namespace Stack

variable {δ : Type}

/-! ## Runs of registrations -/

inductive RegistrationInput where
  | initializeGroups
  | initializePeers
  | registerTransport (peerId transport : Nat)
  | handleConnectionClose (peerId : Nat)
  | handleConnectionDeactivate (peerId : Nat)
  deriving DecidableEq

inductive RegistrationEvent where
  | registered (peerId : Nat)
  | closed (peerId : Nat)
  deriving DecidableEq

/-- `none` once a call has no result. -/
def registration : Machine (Option (Stack δ)) RegistrationInput RegistrationEvent where
  step
    | none, _ => (none, [])
    | some s, .initializeGroups => (some { s with groupMgr := s.groupMgr.initializeGroups.2 }, [])
    | some s, .initializePeers => (some { s with peerMgr := s.peerMgr.initializePeers.2 }, [])
    | some s, .registerTransport peerId transport =>
      match s.registerTransport peerId transport with
      | none => (none, [])
      | some (status, s') => (some s', if status then [.registered peerId] else [])
    | some s, .handleConnectionClose peerId =>
      (some (s.handleConnectionClose (π := Empty) peerId).2.1, [.closed peerId])
    | some s, .handleConnectionDeactivate peerId =>
      (some (s.handleConnectionDeactivate (π := Empty) peerId).2.1, [.closed peerId])

/-- The peer registered, and its connection did not close since. -/
def Connected (h : List RegistrationEvent) (peerId : Nat) : Prop :=
  ∃ h₁ h₂, h = h₁ ++ .registered peerId :: h₂ ∧ .closed peerId ∉ h₂

/-- The three registries have the peer with the transport. -/
structure Holds (s : Stack δ) (peerId transport : Nat) : Prop where
  info : ∃ info, s.peerMgr.peerInfoIndex.find peerId = some info ∧ info.transport = transport
  profile : (s.peerMgr.baseProfileIndex.profileIndex.find peerId).isSome
  group : s.groupMgr.defaultHolds peerId

/-- The three registries are the same. -/
structure Unchanged (s s' : Stack δ) : Prop where
  info : s'.peerMgr.peerInfoIndex = s.peerMgr.peerInfoIndex
  profile : s'.peerMgr.baseProfileIndex = s.peerMgr.baseProfileIndex
  groups : ∀ groupId, s'.groupMgr.groupIdIndex.find groupId = s.groupMgr.groupIdIndex.find groupId

def Ready (s : Stack δ) : Prop := s.peerMgr.initialized ∧ s.groupMgr.initialized

/-- The registries agree after a registration. A peer that is not connected is accepted. -/
def Consistent (h : List RegistrationEvent) : Option (Stack δ) → RegistrationInput → Prop
  | none, _ => False
  | some s, .registerTransport peerId transport =>
    ∃ status s', s.registerTransport peerId transport = some (status, s') ∧
      (status = true → Holds s' peerId transport) ∧
      (status = false → Unchanged s s') ∧
      (s.Ready → ¬ Connected h peerId → status = true)
  | some _, _ => True

/-- The call is refused because a manager is not initialized, or the peer is connected. -/
def Refusable (h : List RegistrationEvent) : Option (Stack δ) → RegistrationInput → Prop
  | some s, .registerTransport peerId _ => s.Ready → Connected h peerId
  | _, _ => True

/-! ## The registries and the history -/

/-- What every run keeps. -/
structure Registered (h : List RegistrationEvent) (s : Stack δ) : Prop where
  flat : ∃ l, s.peerMgr.baseProfileIndex.Flat l
  profile : ∀ p, (s.peerMgr.baseProfileIndex.profileIndex.find p).isSome ↔ .registered p ∈ h
  info : ∀ p, (s.peerMgr.peerInfoIndex.find p).isSome ↔ .registered p ∈ h
  before : s.peerMgr.initialized = false → ∀ p, .registered p ∉ h
  default : s.groupMgr.initialized = true →
    (s.groupMgr.groupIdIndex.find s.groupMgr.defaultGroup).isSome
  group : ∀ p, ¬ s.groupMgr.defaultHolds p

theorem registered_new : Registered [] (new : Stack δ) := by
  refine ⟨⟨[], PeerProfileIndex.flat_new _⟩, fun p => by simp [new, PeerMgr.new,
    PeerProfileIndex.new], fun p => by simp [new, PeerMgr.new], fun _ p => List.not_mem_nil,
    fun h => (by cases h), fun p hp => ?_⟩
  obtain ⟨group, hfind, -⟩ := hp
  cases hfind

variable {h : List RegistrationEvent} {s : Stack δ}

/-- A closed connection adds nothing to the registries. -/
theorem Registered.closed (hr : Registered h s) (peerId : Nat) {queryMgr : QueryMgr δ} :
    Registered (h ++ [RegistrationEvent.closed peerId]) { s with queryMgr } := by
  have hmem : ∀ p, RegistrationEvent.registered p ∈ h ++ [RegistrationEvent.closed peerId] ↔
      RegistrationEvent.registered p ∈ h := fun p => by simp
  refine ⟨hr.flat, fun p => ?_, fun p => ?_, fun hinit p => ?_, hr.default, hr.group⟩
  · rw [hmem]; exact hr.profile p
  · rw [hmem]; exact hr.info p
  · rw [hmem]; exact hr.before hinit p

theorem Registered.initializePeers (hr : Registered h s) :
    Registered h { s with peerMgr := s.peerMgr.initializePeers.2 } := by
  unfold PeerMgr.initializePeers
  split
  · exact hr
  · next hinit =>
    have hnone := hr.before (by simpa using hinit)
    refine ⟨⟨[], PeerProfileIndex.flat_new _⟩, fun p => ?_, fun p => ?_, fun hf => (by cases hf),
      hr.default, hr.group⟩
    · simp [PeerMgr.new, PeerProfileIndex.new, hnone p]
    · simp [PeerMgr.new, hnone p]

theorem Registered.initializeGroups (hr : Registered h s) :
    Registered h { s with groupMgr := s.groupMgr.initializeGroups.2 } := by
  unfold GroupMgr.initializeGroups
  split
  · exact hr
  · refine ⟨hr.flat, hr.profile, hr.info, hr.before, fun _ => ?_, ?_⟩
    · simp
    · rintro p ⟨group, hfind, hholds⟩
      simp only [UMap.find_emplace, UMap.find_empty, if_true, Option.getD_none] at hfind
      cases hfind
      simp [Group.new, PeerProfileIndex.new] at hholds

/-! ## One registration -/

/-- `addPeer` leaves every group as it was. -/
theorem addPeer_find (g : GroupMgr) (groupId peerId : Nat) (i : Nat) :
    (g.update groupId fun group => group.addPeer peerId).2.groupIdIndex.find i =
      g.groupIdIndex.find i := by
  unfold GroupMgr.update Group.addPeer
  cases hf : g.groupIdIndex.find groupId with
  | none => rfl
  | some group =>
    simp only [UMap.find_assign]
    split
    · next hi => rw [hi, hf]
    · rfl

theorem addPeer_default (g : GroupMgr) (groupId peerId : Nat) :
    (g.update groupId fun group => group.addPeer peerId).2.defaultGroup = g.defaultGroup ∧
      (g.update groupId fun group => group.addPeer peerId).2.initialized = g.initialized := by
  unfold GroupMgr.update
  cases g.groupIdIndex.find groupId with
  | none => exact ⟨rfl, rfl⟩
  | some group => exact ⟨rfl, rfl⟩

theorem addPeer_status {g : GroupMgr} {groupId : Nat} (peerId : Nat)
    (hfind : (g.groupIdIndex.find groupId).isSome) :
    (g.update groupId fun group => group.addPeer peerId).1 = true := by
  obtain ⟨group, hgroup⟩ := Option.isSome_iff_exists.mp hfind
  unfold GroupMgr.update
  rw [hgroup]
  rfl

/-- Before the managers are initialized a call is refused. -/
theorem registerTransport_early (hready : ¬ s.Ready) (peerId transport : Nat) :
    s.registerTransport peerId transport = some (false, s) := by
  unfold Stack.registerTransport PeerMgr.registerTransport GroupMgr.getDefaultGroup
  by_cases hp : s.peerMgr.initialized = false
  · simp [hp]
  · have hg : s.groupMgr.initialized = false := by
      refine Bool.eq_false_iff.mpr fun hg => hready ⟨by simpa using hp, hg⟩
    simp [hp, hg]

/-- The state once a transport is registered, but for the base profiles. -/
def added (s : Stack δ) (peerId transport : Nat) (base : PeerProfileIndex) : Stack δ :=
  let groupId := s.groupMgr.defaultGroup
  { s with
    peerMgr := { s.peerMgr with
      baseProfileIndex := base
      peerInfoIndex := s.peerMgr.peerInfoIndex.emplace peerId
        { peerId, transport, peerAlias := none, groupList := [groupId] } }
    groupMgr := (s.groupMgr.update groupId fun group => group.addPeer peerId).2 }

theorem registerTransport_ready (hr : Registered h s) (hready : s.Ready) (peerId transport : Nat) :
    s.registerTransport peerId transport =
      (s.peerMgr.baseProfileIndex.create peerId).map fun r =>
        (r.1, s.added peerId transport r.2) := by
  obtain ⟨hp, hg⟩ := hready
  have hstatus := addPeer_status peerId (hr.default hg)
  unfold Stack.registerTransport PeerMgr.registerTransport GroupMgr.getDefaultGroup added
  simp only [hp, hg, Bool.true_eq_false, if_false, hstatus]
  cases s.peerMgr.baseProfileIndex.create peerId with
  | none => rfl
  | some result => rfl

/-- The first registration of a peer is accepted, and the default group does not have the peer. -/
theorem Registered.first (hr : Registered h s) (hready : s.Ready) {peerId : Nat}
    (hnew : .registered peerId ∉ h) (transport : Nat) :
    ∃ s', s.registerTransport peerId transport = some (true, s') ∧
      Registered (h ++ [RegistrationEvent.registered peerId]) s' := by
  obtain ⟨l, hflat⟩ := hr.flat
  have hfind : s.peerMgr.baseProfileIndex.profileIndex.find peerId = none :=
    Option.not_isSome_iff_eq_none.mp (mt (hr.profile peerId).mp hnew)
  obtain ⟨m', l', hcreate, hflat', hindex⟩ := hflat.create hfind
  refine ⟨s.added peerId transport m', ?_, ⟨l', hflat'⟩, fun p => ?_, fun p => ?_, ?_, ?_, ?_⟩
  · rw [registerTransport_ready hr hready, hcreate]
    rfl
  · show (m'.profileIndex.find p).isSome ↔ _
    rw [hindex, hr.profile, List.mem_append, List.mem_singleton,
      RegistrationEvent.registered.injEq, or_comm]
  · rw [List.mem_append, List.mem_singleton, RegistrationEvent.registered.injEq, ← hr.info]
    simp only [added, UMap.find_emplace]
    by_cases h : p = peerId
    · simp [h]
    · simp [h]
  · intro hinit
    have hp : s.peerMgr.initialized = false := hinit
    rw [hready.1] at hp
    cases hp
  · intro _
    show (UMap.find _ _).isSome
    rw [show (s.added peerId transport m').groupMgr.defaultGroup = s.groupMgr.defaultGroup from
      (addPeer_default ..).1]
    rw [show (s.added peerId transport m').groupMgr.groupIdIndex.find s.groupMgr.defaultGroup =
      s.groupMgr.groupIdIndex.find s.groupMgr.defaultGroup from addPeer_find ..]
    exact hr.default hready.2
  · rintro p ⟨group, hgroup, hholds⟩
    refine hr.group p ⟨group, ?_, hholds⟩
    rw [← addPeer_find s.groupMgr s.groupMgr.defaultGroup peerId]
    rw [show (s.added peerId transport m').groupMgr.defaultGroup = s.groupMgr.defaultGroup from
      (addPeer_default ..).1] at hgroup
    exact hgroup

/-- Every other registration of the peer is refused and changes nothing. -/
theorem Registered.again (hr : Registered h s) (hready : s.Ready) {peerId : Nat}
    (hold : .registered peerId ∈ h) (transport : Nat) :
    ∃ s', s.registerTransport peerId transport = some (false, s') ∧ Unchanged s s' ∧
      Registered h s' := by
  have hcreate := PeerProfileIndex.create_duplicate ((hr.profile peerId).mpr hold)
  obtain ⟨info, hinfo⟩ := Option.isSome_iff_exists.mp ((hr.info peerId).mpr hold)
  have hkeep : (s.added peerId transport s.peerMgr.baseProfileIndex).peerMgr = s.peerMgr := by
    show ({ s.peerMgr with
      peerInfoIndex := s.peerMgr.peerInfoIndex.emplace peerId _ } : PeerMgr) = s.peerMgr
    rw [UMap.emplace_of_find hinfo]
  have hgroups : ∀ groupId,
      (s.added peerId transport s.peerMgr.baseProfileIndex).groupMgr.groupIdIndex.find groupId =
        s.groupMgr.groupIdIndex.find groupId := fun groupId => addPeer_find ..
  obtain ⟨hdefault, hinit⟩ := addPeer_default s.groupMgr s.groupMgr.defaultGroup peerId
  refine ⟨_, ?_, ⟨by rw [hkeep], by rw [hkeep], hgroups⟩, ?_⟩
  · rw [registerTransport_ready hr hready, hcreate]
    rfl
  · refine ⟨hkeep ▸ hr.flat, hkeep ▸ hr.profile, hkeep ▸ hr.info, hkeep ▸ hr.before, fun _ => ?_, ?_⟩
    · rw [hgroups]
      exact hdefault ▸ hr.default hready.2
    · rintro p ⟨group, hgroup, hholds⟩
      refine hr.group p ⟨group, ?_, hholds⟩
      rw [hgroups] at hgroup
      exact hdefault ▸ hgroup

/-! ## Whole runs -/

/-- What the machine's states keep. -/
def Inv (h : List RegistrationEvent) (s : Option (Stack δ)) : Prop :=
  ∃ s', s = some s' ∧ Registered h s'

theorem inv_step (h : List RegistrationEvent) (s : Option (Stack δ)) (input : RegistrationInput)
    (hI : Inv h s) : Inv (h ++ (registration.step s input).2) (registration.step s input).1 := by
  obtain ⟨s, rfl, hr⟩ := hI
  cases input with
  | initializeGroups => exact ⟨_, rfl, by simpa [registration] using hr.initializeGroups⟩
  | initializePeers => exact ⟨_, rfl, by simpa [registration] using hr.initializePeers⟩
  | handleConnectionClose peerId => exact ⟨_, rfl, hr.closed peerId⟩
  | handleConnectionDeactivate peerId => exact ⟨_, rfl, hr.closed peerId⟩
  | registerTransport peerId transport =>
    by_cases hready : s.Ready
    · by_cases hold : .registered peerId ∈ h
      · obtain ⟨s', hcall, -, hr'⟩ := hr.again hready hold transport
        simp only [registration, hcall]
        exact ⟨s', rfl, by simpa using hr'⟩
      · obtain ⟨s', hcall, hr'⟩ := hr.first hready hold transport
        simp only [registration, hcall]
        exact ⟨s', rfl, by simpa using hr'⟩
    · have hcall := registerTransport_early hready peerId transport
      simp only [registration, hcall]
      exact ⟨s, rfl, by simpa using hr⟩

/-- In every run each call has a result, and both registries of peers have exactly those that ever
registered, closed or not; no group has one. -/
theorem registered_run (inputs : List RegistrationInput) :
    ∃ s, (registration.run (some (new : Stack δ)) inputs).1 = some s ∧
      Registered (registration.run (some (new : Stack δ)) inputs).2 s :=
  Machine.run_invariant (I := Inv) inv_step (h := []) inputs ⟨_, rfl, registered_new⟩

theorem Connected.mem {peerId : Nat} (hc : Connected h peerId) : .registered peerId ∈ h := by
  obtain ⟨h₁, h₂, rfl, -⟩ := hc
  simp

theorem Registered.consistent_iff (hr : Registered h s) (input : RegistrationInput) :
    Consistent h (some s) input ↔ Refusable h (some s) input := by
  cases input with
  | registerTransport peerId transport =>
    constructor
    · rintro ⟨status, s', hcall, hholds, -, haccept⟩ hready
      by_contra hconn
      obtain rfl := haccept hready hconn
      by_cases hold : .registered peerId ∈ h
      · obtain ⟨s'', hcall', -⟩ := hr.again hready hold transport
        rw [hcall] at hcall'
        cases hcall'
      · obtain ⟨s'', hcall', hr'⟩ := hr.first hready hold transport
        rw [hcall] at hcall'
        cases hcall'
        exact hr'.group peerId (hholds rfl).group
    · intro hallow
      by_cases hready : s.Ready
      · have hconn := hallow hready
        obtain ⟨s', hcall, hsame, -⟩ := hr.again hready hconn.mem transport
        exact ⟨false, s', hcall, (by simp), fun _ => hsame, fun _ hn => absurd hconn hn⟩
      · exact ⟨false, s, registerTransport_early hready peerId transport, (by simp),
          fun _ => ⟨rfl, rfl, fun _ => rfl⟩, fun hr' => absurd hr' hready⟩
  | initializeGroups => exact Iff.rfl
  | initializePeers => exact Iff.rfl
  | handleConnectionClose peerId => exact Iff.rfl
  | handleConnectionDeactivate peerId => exact Iff.rfl

/-- In every run from the start, a call does what it should with the three registries exactly if a
manager is not initialized yet or the peer is connected already. -/
theorem along_consistent_iff (inputs : List RegistrationInput) :
    registration.Along (fun h s input => Consistent h s input ↔ Refusable h s input) []
      (some (new : Stack δ)) inputs := by
  refine Machine.run_along (I := Inv) inv_step ?_ inputs ⟨_, rfl, registered_new⟩
  rintro h _ input ⟨s, rfl, hr⟩
  exact hr.consistent_iff input

def onePeer : List RegistrationInput :=
  [.initializeGroups, .initializePeers, .registerTransport 5 100]

/-- It is accepted and the default group does not have it. -/
theorem onePeer_not_consistent :
    ¬ registration.Along Consistent [] (some (new : Stack Empty)) onePeer := by
  rintro ⟨-, -, hreg, -⟩
  have hr := (registered_new (δ := Empty)).initializeGroups.initializePeers
  obtain ⟨h₁, h₂, he, -⟩ := (hr.consistent_iff (.registerTransport 5 100)).mp hreg ⟨rfl, rfl⟩
  simp at he

end Stack

end Alpine
