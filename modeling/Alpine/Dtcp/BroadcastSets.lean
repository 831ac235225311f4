import Alpine.Dtcp.Broadcast

/-!
# Growing a set of transports

`DtcpBroadcastSet` keeps its members twice: an array in the order of insertion and an index by
transport id. The constructors size the array first and fill it from the front. `insert` takes room
for more entries and stores behind the last element, but the array's size never grows, so the entry
is in the index only. `remove` is not implemented, and `exists` tells what is missing.
-/

namespace Alpine

open Lib

/-- What a call learns from the stack: the id of a transport, and the transport of an id. -/
structure TransportTable where
  getTransportId : Nat → Option Nat
  locateTransport : Nat → Option Nat

/-- `DtcpBroadcastSet` with the room of its array. -/
structure TransportSet extends BroadcastSet where
  capacity : Nat
  reserve : Nat
  deriving DecidableEq

namespace BroadcastSet

/-- The loop of both constructors; an entry is what the lookup found, the id and the transport. -/
def fill (set : BroadcastSet) (currIndex : Nat) : List (Option (Nat × Nat)) → BroadcastSet
  | [] => set
  | none :: entries => set.fill currIndex entries
  | some (currId, currTransport) :: entries =>
    fill
      { transportArray := set.transportArray.set currIndex (some currTransport)
        transportIndex := set.transportIndex.emplace currId currIndex }
      (currIndex + 1) entries

theorem isSome_find_fill (set : BroadcastSet) (currIndex : Nat)
    (entries : List (Option (Nat × Nat))) (transportId : Nat) :
    ((set.fill currIndex entries).transportIndex.find transportId).isSome ↔
      (set.transportIndex.find transportId).isSome ∨
        ∃ transport, some (transportId, transport) ∈ entries := by
  induction entries generalizing set currIndex with
  | nil => simp [fill]
  | cons e entries ih =>
    cases e with
    | none => simp [fill, ih]
    | some e =>
      obtain ⟨currId, currTransport⟩ := e
      rw [fill, ih, UMap.find_emplace_eq_or]
      by_cases hid : currId = transportId
      · subst hid
        simp
      · have hne : transportId ≠ currId := fun h => hid h.symm
        simp [hid, hne]

theorem insertEach_eq_fill (locateTransport : Nat → Option Nat) (set : BroadcastSet)
    (currIndex : Nat) (ids : List Nat) :
    insertEach locateTransport set currIndex ids =
      set.fill currIndex (ids.map fun currId => (locateTransport currId).map (currId, ·)) := by
  induction ids generalizing set currIndex with
  | nil => rfl
  | cons currId ids ih =>
    rw [insertEach, List.map_cons]
    cases locateTransport currId with
    | none => exact ih set currIndex
    | some transport => exact ih _ _

def sized (entries : List (Option (Nat × Nat))) : BroadcastSet :=
  fill ⟨List.replicate entries.length none, ∅⟩ 0 entries

theorem ofIds_eq_sized (locateTransport : Nat → Option Nat) (ids : List Nat) :
    ofIds locateTransport ids =
      sized (ids.map fun currId => (locateTransport currId).map (currId, ·)) := by
  rw [ofIds, insertEach_eq_fill, sized, List.length_map]

end BroadcastSet

/-- How a set is constructed. -/
inductive SetSource where
  | nothing
  | transportList (table : TransportTable) (transports : List Nat)
  | transportIdList (table : TransportTable) (ids : List Nat)

/-- What the constructor's loop finds for each entry of its list. -/
def SetSource.entries : SetSource → List (Option (Nat × Nat))
  | .nothing => []
  | .transportList table transports =>
    transports.map fun item => (table.getTransportId item).map (·, item)
  | .transportIdList table ids => ids.map fun item => (table.locateTransport item).map (item, ·)

namespace TransportSet

/-- The constructors. -/
def new : SetSource → TransportSet
  | .nothing => { transportArray := [], transportIndex := ∅, capacity := 0, reserve := 0 }
  | .transportList table transports =>
    { BroadcastSet.sized
        (transports.map fun item => (table.getTransportId item).map (·, item)) with
      capacity := transports.length, reserve := 0 }
  | .transportIdList table ids =>
    { BroadcastSet.ofIds table.locateTransport ids with capacity := ids.length, reserve := 0 }

variable (s : TransportSet)

/-- The room grows, the elements stay. -/
def extendTransportArray (extent : Nat) : TransportSet :=
  let newSize := (s.transportArray.length + extent) % 2 ^ 32
  { s with capacity := max s.capacity newSize, reserve := extent }

/-- The first lines of `insert`. -/
def makeRoom : TransportSet :=
  if s.reserve = 0 then
    s.extendTransportArray ((s.transportArray.length / 5 % 2 ^ 32 + 1) % 2 ^ 32)
  else s

/-- The last lines of `insert`: the element behind the last one is written, which is not an element
of the array. `none` is a write outside of its room. -/
def storeLast (transportId transport : Nat) : Option TransportSet :=
  let currIndex := s.transportArray.length
  if currIndex < s.capacity then
    some
      { s with
        transportArray := s.transportArray.set currIndex (some transport)
        transportIndex := s.transportIndex.emplace transportId currIndex
        reserve := (s.reserve + (2 ^ 32 - 1)) % 2 ^ 32 }
  else none

def insertTransport (table : TransportTable) (transport : Nat) : Option (Bool × TransportSet) :=
  let s := s.makeRoom
  match table.getTransportId transport with
  | none => some (false, s)
  | some transportId =>
    match s.transportIndex.find transportId with
    | some _ => some (false, s)
    | none => (s.storeLast transportId transport).map (true, ·)

def insertId (table : TransportTable) (transportId : Nat) : Option (Bool × TransportSet) :=
  let s := s.makeRoom
  match s.transportIndex.find transportId with
  | some _ => some (false, s)
  | none =>
    match table.locateTransport transportId with
    | none => some (false, s)
    | some transport => (s.storeLast transportId transport).map (true, ·)

/-- `find == end`. -/
def existsId (transportId : Nat) : Bool := decide (s.transportIndex.find transportId = none)

def existsTransport (table : TransportTable) (transport : Nat) : Bool :=
  match table.getTransportId transport with
  | none => false
  | some transportId => s.existsId transportId

def getTransportList : List (Option Nat) := s.transportArray

def getTransportIdList : List Nat := s.transportIndex.keys

/-- Not implemented. -/
def removeTransport (_table : TransportTable) (_transport : Nat) : Bool × TransportSet := (true, s)

/-- Not implemented. -/
def removeId (_transportId : Nat) : Bool × TransportSet := (true, s)

def clear : TransportSet :=
  { s with transportArray := [], transportIndex := ∅, reserve := s.capacity % 2 ^ 32 }

end TransportSet

/-! ## Runs -/

inductive SetCall where
  | insertTransport (table : TransportTable) (transport : Nat)
  | insertId (table : TransportTable) (transportId : Nat)
  | removeTransport (table : TransportTable) (transport : Nat)
  | removeId (transportId : Nat)
  | clear

namespace TransportSet

def call (s : TransportSet) : SetCall → Option TransportSet
  | .insertTransport table transport => (s.insertTransport table transport).map (·.2)
  | .insertId table transportId => (s.insertId table transportId).map (·.2)
  | .removeTransport table transport => some (s.removeTransport table transport).2
  | .removeId transportId => some (s.removeId transportId).2
  | .clear => some s.clear

/-- The set after the calls, unless one of them writes outside of the array's room. -/
def calls (s : TransportSet) (cs : List SetCall) : Option TransportSet := cs.foldlM call s

end TransportSet

/-! ## What a set is to hold -/

/-- The transports by their id. -/
abbrev Members := UMap Nat Nat

namespace Members

/-- An entry that was found is a member, unless its id already is one. -/
def join (m : Members) : Option (Nat × Nat) → Members
  | none => m
  | some (transportId, transport) => m.emplace transportId transport

def ofSource (source : SetSource) : Members := source.entries.foldl join ∅

/-- What each call says of the members. -/
def call (m : Members) : SetCall → Members
  | .insertTransport table transport =>
    m.join ((table.getTransportId transport).map (·, transport))
  | .insertId table transportId => m.join ((table.locateTransport transportId).map (transportId, ·))
  | .removeTransport table transport =>
    match table.getTransportId transport with
    | none => m
    | some transportId => m.erase transportId
  | .removeId transportId => m.erase transportId
  | .clear => ∅

def calls (m : Members) (cs : List SetCall) : Members := cs.foldl call m

end Members

namespace Members

/-- Nothing is ever removed. -/
def enter (m : Members) : SetCall → Members
  | .removeTransport _ _ => m
  | .removeId _ => m
  | c => m.call c

/-- What would be held had nothing been removed. -/
def entered (m : Members) (cs : List SetCall) : Members := cs.foldl enter m

theorem isSome_find_join (m : Members) (e : Option (Nat × Nat)) (transportId : Nat) :
    ((m.join e).find transportId).isSome ↔
      (m.find transportId).isSome ∨ ∃ transport, e = some (transportId, transport) := by
  cases e with
  | none => simp [join]
  | some e =>
    obtain ⟨currId, currTransport⟩ := e
    rw [join, UMap.find_emplace_eq_or]
    by_cases hid : currId = transportId
    · subst hid
      simp
    · simp [hid]

theorem isSome_find_foldl_join (m : Members) (entries : List (Option (Nat × Nat)))
    (transportId : Nat) :
    ((entries.foldl join m).find transportId).isSome ↔
      (m.find transportId).isSome ∨ ∃ transport, some (transportId, transport) ∈ entries := by
  induction entries generalizing m with
  | nil => simp
  | cons e entries ih =>
    rw [List.foldl_cons, ih, isSome_find_join, or_assoc, ← exists_or]
    simp only [List.mem_cons, eq_comm]

/-- The keys of `m` are keys of `m'`. -/
def Within (m m' : Members) : Prop :=
  ∀ transportId, (m.find transportId).isSome → (m'.find transportId).isSome

theorem Within.join {m m' : Members} (h : m.Within m') (e : Option (Nat × Nat)) :
    (m.join e).Within (m'.join e) := by
  intro transportId hfind
  rw [isSome_find_join] at hfind ⊢
  exact hfind.imp_left (h transportId)

theorem Within.erase {m m' : Members} (h : m.Within m') (removed : Nat) :
    Within (m.erase removed) m' := by
  intro transportId hfind
  rw [UMap.find_erase] at hfind
  split at hfind
  · cases hfind
  · exact h transportId hfind

theorem Within.call {m m' : Members} (h : m.Within m') (c : SetCall) :
    (m.call c).Within (m'.enter c) := by
  cases c with
  | insertTransport table transport => exact h.join _
  | insertId table transportId => exact h.join _
  | removeTransport table transport =>
    rw [Members.call]
    cases table.getTransportId transport with
    | none => exact h
    | some transportId => exact h.erase transportId
  | removeId transportId => exact h.erase transportId
  | clear => exact fun _ hfind => hfind

theorem calls_within (m : Members) (cs : List SetCall) : (m.calls cs).Within (m.entered cs) := by
  suffices h : ∀ m' : Members, m.Within m' → (m.calls cs).Within (m'.entered cs) from
    h m fun _ hfind => hfind
  induction cs generalizing m with
  | nil => exact fun _ h => h
  | cons c cs ih => exact fun m' h => ih (m.call c) (m'.enter c) (h.call c)

/-- Of maps whose keys are keys of another, those with as many keys have the same. -/
theorem Within.length_eq_iff {m m' : Members} (h : m.Within m') :
    m'.keys.length = m.keys.length ↔ m'.Within m := by
  have hsub : m.keys ⊆ m'.keys := fun k hk => UMap.mem_keys.mpr (h k (UMap.mem_keys.mp hk))
  have hperm := (AList.keys_nodup m).subperm hsub
  constructor
  · intro hlength transportId hfind
    have hmem := UMap.mem_keys.mpr hfind
    exact UMap.mem_keys.mp ((hperm.perm_of_length_le hlength.le).mem_iff.mpr hmem)
  · intro hback
    have hsub' : m'.keys ⊆ m.keys := fun k hk => UMap.mem_keys.mpr (hback k (UMap.mem_keys.mp hk))
    exact le_antisymm ((AList.keys_nodup m').subperm hsub').length_le hperm.length_le

end Members

/-! ## What the code keeps of it -/

namespace TransportSet

/-- The index knows the ids of `m`. -/
def Indexes (s : TransportSet) (m : Members) : Prop :=
  ∀ transportId, (s.transportIndex.find transportId).isSome ↔ (m.find transportId).isSome

variable {s s' : TransportSet} {m : Members}

theorem transportIndex_makeRoom : s.makeRoom.transportIndex = s.transportIndex := by
  unfold makeRoom extendTransportArray
  split <;> rfl

theorem transportArray_makeRoom : s.makeRoom.transportArray = s.transportArray := by
  unfold makeRoom extendTransportArray
  split <;> rfl

theorem new_eq_sized (source : SetSource) :
    (new source).toBroadcastSet = BroadcastSet.sized source.entries := by
  cases source with
  | nothing => rfl
  | transportList table transports => rfl
  | transportIdList table ids => exact BroadcastSet.ofIds_eq_sized _ ids

/-- What `insert` does once the id and the transport are known. -/
theorem storeLast_cases {transportId transport : Nat}
    (h : s.storeLast transportId transport = some s') :
    s.transportArray.length < s.capacity ∧ s'.transportArray = s.transportArray ∧
      s'.transportIndex = s.transportIndex.emplace transportId s.transportArray.length := by
  unfold storeLast at h
  dsimp only at h
  split at h
  · next hroom =>
    obtain rfl := Option.some.inj h
    exact ⟨hroom, List.set_eq_of_length_le le_rfl, rfl⟩
  · cases h

theorem Indexes.of_find {transportId transport index : Nat} (hindexes : s.Indexes m)
    (hfind : s.transportIndex.find transportId = some index) :
    s.Indexes (m.join (some (transportId, transport))) := by
  intro k
  rw [Members.isSome_find_join, ← hindexes k]
  constructor
  · exact .inl
  · rintro (hk | ⟨_, hk⟩)
    · exact hk
    · obtain ⟨rfl, -⟩ := Prod.mk.inj (Option.some.inj hk)
      rw [hfind]
      rfl

theorem Indexes.of_emplace {transportId transport index : Nat} (hindexes : s.Indexes m)
    (hemplace : s'.transportIndex = s.transportIndex.emplace transportId index) :
    s'.Indexes (m.join (some (transportId, transport))) := by
  intro k
  rw [Members.isSome_find_join, ← hindexes k, hemplace, UMap.find_emplace_eq_or]
  by_cases hk : transportId = k
  · subst hk
    simp
  · simp [hk]

/-- `insert` keeps the elements of the array, and the index learns the id. -/
theorem insertTransport_spec {table : TransportTable} {transport : Nat} {inserted : Bool}
    (h : s.insertTransport table transport = some (inserted, s')) :
    s'.transportArray = s.transportArray ∧
      (s.Indexes m →
        s'.Indexes (m.join ((table.getTransportId transport).map (·, transport)))) := by
  unfold insertTransport at h
  dsimp only at h
  have hindex := s.transportIndex_makeRoom
  have harray := s.transportArray_makeRoom
  cases hid : table.getTransportId transport with
  | none =>
    rw [hid] at h
    obtain ⟨-, rfl⟩ := Prod.mk.inj (Option.some.inj h)
    exact ⟨harray, fun hindexes k => by rw [hindex]; exact hindexes k⟩
  | some transportId =>
    rw [hid] at h
    dsimp only at h
    cases hfind : s.makeRoom.transportIndex.find transportId with
    | some index =>
      rw [hfind] at h
      obtain ⟨-, rfl⟩ := Prod.mk.inj (Option.some.inj h)
      refine ⟨harray, fun hindexes => Indexes.of_find (fun k => ?_) hfind⟩
      rw [hindex]
      exact hindexes k
    | none =>
      rw [hfind] at h
      obtain ⟨stored, hstored, heq⟩ := Option.map_eq_some_iff.mp h
      obtain ⟨-, rfl⟩ := Prod.mk.inj heq
      obtain ⟨-, hkept, hemplace⟩ := storeLast_cases hstored
      rw [hindex] at hemplace
      exact ⟨hkept.trans harray, fun hindexes => hindexes.of_emplace hemplace⟩

theorem insertId_spec {table : TransportTable} {transportId : Nat} {inserted : Bool}
    (h : s.insertId table transportId = some (inserted, s')) :
    s'.transportArray = s.transportArray ∧
      (s.Indexes m →
        s'.Indexes (m.join ((table.locateTransport transportId).map (transportId, ·)))) := by
  unfold insertId at h
  dsimp only at h
  have hindex := s.transportIndex_makeRoom
  have harray := s.transportArray_makeRoom
  cases hfind : s.makeRoom.transportIndex.find transportId with
  | some index =>
    rw [hfind] at h
    obtain ⟨-, rfl⟩ := Prod.mk.inj (Option.some.inj h)
    refine ⟨harray, fun hindexes => ?_⟩
    have hkept : s.makeRoom.Indexes m := fun k => by
      rw [hindex]
      exact hindexes k
    cases table.locateTransport transportId with
    | none => exact hkept
    | some transport => exact hkept.of_find hfind
  | none =>
    rw [hfind] at h
    dsimp only at h
    cases hlocate : table.locateTransport transportId with
    | none =>
      rw [hlocate] at h
      obtain ⟨-, rfl⟩ := Prod.mk.inj (Option.some.inj h)
      exact ⟨harray, fun hindexes k => by rw [hindex]; exact hindexes k⟩
    | some transport =>
      rw [hlocate] at h
      obtain ⟨stored, hstored, heq⟩ := Option.map_eq_some_iff.mp h
      obtain ⟨-, rfl⟩ := Prod.mk.inj heq
      obtain ⟨-, hkept, hemplace⟩ := storeLast_cases hstored
      rw [hindex] at hemplace
      exact ⟨hkept.trans harray, fun hindexes => hindexes.of_emplace hemplace⟩

/-- The index grows with each call, as if nothing were ever removed. -/
theorem Indexes.call {c : SetCall} (hindexes : s.Indexes m) (h : s.call c = some s') :
    s'.Indexes (m.enter c) := by
  cases c with
  | insertTransport table transport =>
    obtain ⟨⟨inserted, last⟩, hlast, rfl⟩ := Option.map_eq_some_iff.mp h
    exact (insertTransport_spec hlast).2 hindexes
  | insertId table transportId =>
    obtain ⟨⟨inserted, last⟩, hlast, rfl⟩ := Option.map_eq_some_iff.mp h
    exact (insertId_spec hlast).2 hindexes
  | removeTransport table transport =>
    obtain rfl := Option.some.inj h
    exact hindexes
  | removeId transportId =>
    obtain rfl := Option.some.inj h
    exact hindexes
  | clear =>
    obtain rfl := Option.some.inj h
    exact fun k => Iff.rfl

theorem Indexes.calls {cs : List SetCall} (hindexes : s.Indexes m) (h : s.calls cs = some s') :
    s'.Indexes (m.entered cs) := by
  induction cs generalizing s m with
  | nil =>
    obtain rfl := Option.some.inj h
    exact hindexes
  | cons c cs ih =>
    obtain ⟨next, hnext, hrest⟩ := Option.bind_eq_some_iff.mp h
    exact ih (hindexes.call hnext) hrest

theorem indexes_new (source : SetSource) : (new source).Indexes (Members.ofSource source) := by
  intro transportId
  rw [Members.ofSource, Members.isSome_find_foldl_join, new_eq_sized, BroadcastSet.sized,
    BroadcastSet.isSome_find_fill]

theorem Indexes.size_eq (hindexes : s.Indexes m) : s.size = m.keys.length :=
  (Members.Within.length_eq_iff fun transportId h => (hindexes transportId).mpr h).mpr
    fun transportId h => (hindexes transportId).mp h

/-- The size is that of the members exactly when none was removed, or all of these came back. -/
theorem size_eq_iff {source : SetSource} {cs : List SetCall}
    (h : (new source).calls cs = some s) :
    s.size = ((Members.ofSource source).calls cs).keys.length ↔
      ((Members.ofSource source).entered cs).Within ((Members.ofSource source).calls cs) := by
  rw [((indexes_new source).calls h).size_eq]
  exact (Members.calls_within _ cs).length_eq_iff

end TransportSet

/-! ## A set that represents its members -/

/-- The set holds the members, and answers as such. -/
structure TransportSet.Represents (s : TransportSet) (m : Members) : Prop where
  size : s.size = m.keys.length
  /-- In particular no entry is null, and none is there twice. -/
  list : s.getTransportList.Perm ((AList.entries m).map fun e => some e.2)
  exists_iff : ∀ transportId < 2 ^ 64, s.existsId transportId = true ↔ (m.find transportId).isSome

namespace TransportSet

/-- An index of the same size as the members is one of the members, and `existsId` says the
opposite of it. -/
theorem not_represents {source : SetSource} {cs : List SetCall} :
    ¬ ∃ s, (new source).calls cs = some s ∧ s.Represents ((Members.ofSource source).calls cs) := by
  rintro ⟨s, hs, hrepresents⟩
  have hindexes := (indexes_new source).calls hs
  have hwithin := (size_eq_iff hs).mp hrepresents.size
  have hheld := Members.calls_within (Members.ofSource source) cs
  have hzero := hrepresents.exists_iff 0 (by decide)
  have hfind : (s.transportIndex.find 0).isSome ↔
      (((Members.ofSource source).calls cs).find 0).isSome :=
    (hindexes 0).trans ⟨hwithin 0, hheld 0⟩
  rw [← hfind, existsId, decide_eq_true_iff] at hzero
  cases h : s.transportIndex.find 0 with
  | none => exact absurd (hzero.mp h) (by rw [h]; simp)
  | some index => exact absurd (hzero.mpr (by rw [h]; rfl)) (by rw [h]; simp)

/-- The stack has one transport, at the address 40 with the id 7. -/
def oneTransport : TransportTable where
  getTransportId transport := if transport = 40 then some 7 else none
  locateTransport transportId := if transportId = 7 then some 40 else none

/-- A set of that transport, which says that it does not have it. -/
theorem oneTransport_not_represented :
    ∃ s, (new (.transportIdList oneTransport [7])).calls [] = some s ∧
      (Members.ofSource (.transportIdList oneTransport [7])).find 7 = some 40 ∧
      s.existsId 7 = false ∧
      ¬ s.Represents ((Members.ofSource (.transportIdList oneTransport [7])).calls []) := by
  refine ⟨_, rfl, by decide, by decide, fun h => ?_⟩
  have hseven := (h.exists_iff 7 (by decide)).mpr (by decide)
  exact absurd hseven (by decide)

end TransportSet

end Alpine
