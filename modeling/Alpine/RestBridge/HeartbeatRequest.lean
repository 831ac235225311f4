import Alpine.Protocol.RatingEngine
import Alpine.RestBridge.ClusterCoordinator
import Alpine.RestBridge.HttpRequest
import Alpine.RestBridge.JsonReader

/-!
# Heartbeats of other nodes

The body of a heartbeat is read twice: the fields of the node by a `JsonReader`, which takes the
default for what it cannot read, and the peer scores by the library itself, which throws. What the
body carries is read strictly here (`carriedNode`, `carriedScores`), and each peer's rating has to
take in the entries about it (`RecordedScores`); a heartbeat is taken as a whole or refused exactly
if the body is `Ingestible` (`heartbeat_atomic_iff`).

Strings of the table are byte strings, a character for each byte. `NumberCasts` is what the library
makes of numbers that it stores as doubles.
-/

namespace Alpine

open Lib

inductive HeartbeatReply where
  | accepted
  | badRequest (message : String)
  /-- An exception leaves the handler. -/
  | threw
  deriving DecidableEq

structure NumberCasts (K : Type) where
  /-- `get<double>`. -/
  double : JsonNumber → K
  /-- `static_cast<ulong>` of a number that is stored as a double. -/
  truncate : JsonNumber → Nat
  /-- A load, as the table has it. -/
  load : JsonNumber → ℚ≥0

/-- What a request leaves behind, and its reply. -/
structure HeartbeatResult (K : Type) where
  coordinator : ClusterCoordinator
  engine : RatingEngine K
  /-- The score entries that the merge has written into the table of ratings. -/
  merged : List (ScoreEntry K)
  reply : HeartbeatReply

namespace ClusterCoordinator

def byteText (bytes : List UInt8) : String := String.ofList (bytes.map fun b => Char.ofNat b.toNat)

/-- `contains` and `operator[]`. -/
def member (v : Json) (key : String) : Option Json :=
  match v with
  | .object members => JsonReader.find members key.toList
  | _ => none

section Casts

variable {K : Type} (casts : NumberCasts K)

/-- `get<ulong>`: an integer is taken modulo 2^64; `none` is a `type_error`. -/
def getAsUlong : Json → Option Nat
  | .num n =>
    if JsonReader.isUnsigned n then some n.integer
    else if n.negative && n.fraction = [] && n.exponent = none && n.integer ≤ 2 ^ 63 then
      some ((2 ^ 64 - n.integer) % 2 ^ 64)
    else some (casts.truncate n)
  | _ => none

def getAsDouble : Json → Option K
  | .num n => some (casts.double n)
  | _ => none

/-- The three members of a score entry. -/
def entryMembers (se : Json) : Option (Json × Json × Json) := do
  let peerId ← member se "peerId"
  let score ← member se "score"
  let interactions ← member se "interactions"
  pure (peerId, score, interactions)

/-- The loop over the peer scores; `none` is an exception. -/
def readScores : List Json → Option (List (ScoreEntry K))
  | [] => some []
  | se :: items =>
    match entryMembers se with
    | none => readScores items
    | some (peerId, score, interactions) => do
      let peerId ← getAsUlong casts peerId
      let score ← getAsDouble casts score
      let interactions ← getAsUlong casts interactions
      let remoteScores ← readScores items
      pure (⟨peerId, score, interactions⟩ :: remoteScores)

end Casts

def scoreItems (members : List (List Char × Json)) : List Json :=
  match JsonReader.find members "peerScores".toList with
  | some (.array items) => items
  | _ => []

/-- The items of `peerScores`; a text that cannot be parsed is discarded. -/
def peerScores (library : JsonLibrary) (body : List UInt8) : List Json :=
  match library.parse body with
  | .document (.object members) => scoreItems members
  | _ => []

/-- The fields that the handler reads; what is optional has a default. -/
def readNode (reader : JsonReader) : Option Heartbeat := do
  let nodeId ← reader.getString "nodeId".toList
  let host ← reader.getString "host".toList
  let restPort ← reader.getUlong "restPort".toList
  pure
    { nodeId := byteText nodeId
      host := byteText host
      restPort
      activeQueries := (reader.getUlong "activeQueries".toList).getD 0
      connectionCount := (reader.getUlong "connectionCount".toList).getD 0
      cpuLoad := 0
      region := byteText ((reader.getString "region".toList).getD [])
      capabilities := []
      activeQueryHashes := [] }

variable {K : Type} [Field K] [LinearOrder K]

/-- The handler for a request; the merge reads the clock again. -/
def handleHeartbeatRequest (library : JsonLibrary) (casts : NumberCasts K) (c : ClusterCoordinator)
    (engine : RatingEngine K) (now mergedAt : Nat) (request : HttpRequest) : HeartbeatResult K :=
  match JsonReader.new library request.body with
  | none => ⟨c, engine, [], .threw⟩
  | some reader =>
    match readNode reader with
    | none => ⟨c, engine, [], .badRequest "Missing required heartbeat fields"⟩
    | some heartbeat =>
      let c := c.handleClusterHeartbeat now heartbeat
      match readScores casts (peerScores library request.body) with
      | none => ⟨c, engine, [], .threw⟩
      | some remoteScores =>
        ⟨c,
          if remoteScores.isEmpty then engine
          else engine.mergeRemoteScores remoteScores 10 mergedAt,
          RatingEngine.mergedEntries remoteScores 10, .accepted⟩

/-! ## What a body carries -/

def asString : Json → Option (List UInt8)
  | .str s => some (utf8 s)
  | _ => none

/-- A number that is written as a natural number below 2^64. -/
def asUnsigned : Json → Option Nat
  | .num n => if JsonReader.isUnsigned n then some n.integer else none
  | _ => none

def asLoad (casts : NumberCasts K) : Json → Option ℚ≥0
  | .num n => some (casts.load n)
  | _ => none

def asStrings : Json → Option (List String)
  | .array items => items.mapM fun v => (asString v).map byteText
  | _ => none

/-- A member that may be missing, but not be of another type. -/
def optional {α : Type} (read : Json → Option α) (default : α)
    (members : List (List Char × Json)) (key : String) : Option α :=
  match JsonReader.find members key.toList with
  | none => some default
  | some v => read v

/-- A node in a document; numbers have the width they are written with. -/
structure CarriedNode where
  nodeId : String
  host : String
  restPort : Nat
  activeQueries : Nat
  connectionCount : Nat
  region : String
  cpuLoad : Option ℚ≥0
  capabilities : Option (List String)
  deriving DecidableEq

def carriedNode (casts : NumberCasts K) (members : List (List Char × Json)) :
    Option CarriedNode := do
  let nodeId ← (JsonReader.find members "nodeId".toList).bind asString
  let host ← (JsonReader.find members "host".toList).bind asString
  let restPort ← (JsonReader.find members "restPort".toList).bind asUnsigned
  let activeQueries ← optional asUnsigned 0 members "activeQueries"
  let connectionCount ← optional asUnsigned 0 members "connectionCount"
  let region ← optional asString [] members "region"
  let cpuLoad ← optional (fun v => (asLoad casts v).map some) none members "cpuLoad"
  let capabilities ← optional (fun v => (asStrings v).map some) none members "capabilities"
  pure
    { nodeId := byteText nodeId, host := byteText host, restPort, activeQueries, connectionCount
      region := byteText region, cpuLoad, capabilities }

def carriedEntry (casts : NumberCasts K) : Json × Json × Json → Option (ScoreEntry K)
  | (peerId, score, interactions) => do
    let peerId ← asUnsigned peerId
    let score ← getAsDouble casts score
    let interactions ← asUnsigned interactions
    pure ⟨peerId, score, interactions⟩

/-- The items that have the three members are the entries. -/
def carriedScores (casts : NumberCasts K) (members : List (List Char × Json)) :
    Option (List (ScoreEntry K)) :=
  ((scoreItems members).filterMap entryMembers).mapM (carriedEntry casts)

/-- What the table has of a node. -/
def known (c : ClusterCoordinator) (nodeId : String) : NodeInfo :=
  (c.nodes.find nodeId).getD .empty

/-- The table has the node that was carried, and is otherwise as before. -/
structure Recorded (c : ClusterCoordinator) (now : Nat) (carried : CarriedNode)
    (c' : ClusterCoordinator) : Prop where
  node : ∃ node, c'.nodes.find carried.nodeId = some node ∧ node.nodeId = carried.nodeId ∧
    node.host = carried.host ∧ node.restPort.toNat = carried.restPort ∧
    node.activeQueries = carried.activeQueries ∧
    node.connectionCount = carried.connectionCount ∧ node.region = carried.region ∧
    node.cpuLoadEstimate = carried.cpuLoad.getD (c.known carried.nodeId).cpuLoadEstimate ∧
    node.capabilities = carried.capabilities.getD (c.known carried.nodeId).capabilities ∧
    node.rttMs = (c.known carried.nodeId).rttMs ∧ node.lastHeartbeat = now
  others : ∀ id, id ≠ carried.nodeId → c'.nodes.find id = c.nodes.find id
  rest : { c' with nodes := c.nodes } = c

/-- The rating of each peer has taken in the entries about it, in their order, and nothing else. -/
def RecordedScores (engine : RatingEngine K) (now : Nat) (entries : List (ScoreEntry K))
    (engine' : RatingEngine K) : Prop :=
  ∀ peerId, engine'.ratings.find peerId = (entries.filter fun entry => entry.peerId = peerId).foldl
    (fun rating entry => some (RatingEngine.takenIn now entry rating)) (engine.ratings.find peerId)

/-- What the handler is to do with a request: take what the body carries, or leave all as it is. -/
def Atomic (library : JsonLibrary) (casts : NumberCasts K) (request : HttpRequest)
    (c : ClusterCoordinator) (engine : RatingEngine K) (now mergedAt : Nat)
    (result : HeartbeatResult K) : Prop :=
  match result.reply with
  | .accepted => ∃ members carried entries,
      library.parse request.body = .document (.object members) ∧
      carriedNode casts members = some carried ∧ carriedScores casts members = some entries ∧
      Recorded c now carried result.coordinator ∧ result.merged = entries ∧
      RecordedScores engine mergedAt entries result.engine
  | .badRequest _ => result.coordinator = c ∧ result.engine = engine
  | .threw => False

/-! ## When it does -/

def fitsString (v : Json) : Bool :=
  match v with
  | .str s => (utf8 s).length ≤ JsonReader.MAX_STRING_LENGTH
  | _ => false

def fitsUnsigned (bits : Nat) (v : Json) : Bool :=
  match v with
  | .num n => JsonReader.isUnsigned n && n.integer < 2 ^ bits
  | _ => false

def isNumber (v : Json) : Bool :=
  match v with
  | .num _ => true
  | _ => false

def fitsEntry : Json × Json × Json → Bool
  | (peerId, score, interactions) =>
    fitsUnsigned 64 peerId && isNumber score && fitsUnsigned 64 interactions

/-- Members that the handler reads have their types, numbers their ranges, and strings a length that
is not cut; what it does not read is not there. -/
structure FitsNode (members : List (List Char × Json)) : Prop where
  nodeId : ∀ v, JsonReader.find members "nodeId".toList = some v → fitsString v = true
  host : ∀ v, JsonReader.find members "host".toList = some v → fitsString v = true
  restPort : ∀ v, JsonReader.find members "restPort".toList = some v → fitsUnsigned 16 v = true
  activeQueries : ∀ v, JsonReader.find members "activeQueries".toList = some v →
    fitsUnsigned 32 v = true
  connectionCount : ∀ v, JsonReader.find members "connectionCount".toList = some v →
    fitsUnsigned 32 v = true
  region : ∀ v, JsonReader.find members "region".toList = some v → fitsString v = true
  /-- These two are sent by `broadcastHeartbeat`, and never read. -/
  cpuLoad : JsonReader.find members "cpuLoad".toList = none
  capabilities : JsonReader.find members "capabilities".toList = none

/-- The minimum of interactions that `mergeRemoteScores` is called with. -/
def reachesMinimum : Json × Json × Json → Bool
  | (_, _, interactions) => (asUnsigned interactions).any fun n => 10 ≤ n

/-- The entries have their types, and none is passed over. -/
structure FitsScores (members : List (List Char × Json)) : Prop where
  typed : ∀ entry ∈ (scoreItems members).filterMap entryMembers, fitsEntry entry = true
  counted : ∀ entry ∈ (scoreItems members).filterMap entryMembers, reachesMinimum entry = true

/-- The exact condition on a body. One that lacks a required field is refused. -/
def Ingestible (library : JsonLibrary) (body : List UInt8) : Prop :=
  JsonReader.new library body ≠ none ∧
    ∀ members, JsonReader.new library body = some ⟨some members⟩ →
      readNode ⟨some members⟩ ≠ none → FitsNode members ∧ FitsScores members

/-! ## The two readings -/

/-- The fields of a heartbeat become those of the node that was carried when they are stored. -/
structure Stored (h : Heartbeat) (carried : CarriedNode) : Prop where
  nodeId : h.nodeId = carried.nodeId
  host : h.host = carried.host
  restPort : h.restPort % 2 ^ 16 = carried.restPort
  activeQueries : h.activeQueries % 2 ^ 32 = carried.activeQueries
  connectionCount : h.connectionCount % 2 ^ 32 = carried.connectionCount
  region : h.region = carried.region
  cpuLoad : carried.cpuLoad = none
  capabilities : carried.capabilities = none

section Readings

variable {members : List (List Char × Json)}

theorem toNat_ofNat_byte (b : UInt8) : (Char.ofNat b.toNat).toNat = b.toNat := by
  have hlt : b.toNat < 256 := b.toNat_lt
  rw [Char.ofNat, dif_pos (.inl (by omega))]
  rfl

/-- Different byte strings are different texts of the table. -/
theorem byteText_injective : Function.Injective byteText := by
  intro a b h
  have hmap := String.ofList_injective h
  refine List.map_injective_iff.mpr (fun x y hxy => ?_) hmap
  have hnat := congrArg Char.toNat hxy
  rw [toNat_ofNat_byte, toNat_ofNat_byte] at hnat
  exact UInt8.toNat_inj.mp hnat

theorem getString_eq (key : List Char) :
    JsonReader.getString ⟨some members⟩ key =
      ((JsonReader.find members key).bind asString).map (·.take JsonReader.MAX_STRING_LENGTH) := by
  unfold JsonReader.getString
  dsimp only [Option.bind_eq_bind, Option.bind_some]
  cases JsonReader.find members key with
  | none => rfl
  | some v => cases v <;> rfl

theorem getUlong_eq (key : List Char) :
    JsonReader.getUlong ⟨some members⟩ key = (JsonReader.find members key).bind asUnsigned := by
  unfold JsonReader.getUlong
  dsimp only [Option.bind_eq_bind, Option.bind_some]
  cases JsonReader.find members key with
  | none => rfl
  | some v => cases v <;> rfl

theorem fitsString_iff {v : Json} {bytes : List UInt8} (h : asString v = some bytes) :
    fitsString v = true ↔ bytes.length ≤ JsonReader.MAX_STRING_LENGTH := by
  cases v with
  | str s =>
    cases h
    exact decide_eq_true_iff
  | _ => cases h

theorem asString_of_fits {v : Json} (h : fitsString v = true) :
    ∃ bytes, asString v = some bytes := by
  cases v with
  | str s => exact ⟨utf8 s, rfl⟩
  | _ => cases h

theorem fitsUnsigned_iff {bits : Nat} {v : Json} {n : Nat} (h : asUnsigned v = some n) :
    fitsUnsigned bits v = true ↔ n < 2 ^ bits := by
  cases v with
  | num m =>
    unfold asUnsigned at h
    dsimp only at h
    split at h
    · rename_i hm
      cases h
      unfold fitsUnsigned
      dsimp only
      rw [hm, Bool.true_and, decide_eq_true_iff]
    · cases h
  | _ => cases h

theorem asUnsigned_of_fits {bits : Nat} {v : Json} (h : fitsUnsigned bits v = true) :
    ∃ n, asUnsigned v = some n := by
  cases v with
  | num m =>
    unfold fitsUnsigned at h
    rw [Bool.and_eq_true] at h
    exact ⟨m.integer, if_pos h.1⟩
  | _ => cases h

/-- A string that is not cut. -/
theorem take_of_fits {v : Json} {bytes : List UInt8} (h : asString v = some bytes)
    (hfits : fitsString v = true) : bytes.take JsonReader.MAX_STRING_LENGTH = bytes :=
  List.take_of_length_le ((fitsString_iff h).mp hfits)

theorem fits_of_take {v : Json} {bytes : List UInt8} (h : asString v = some bytes)
    (htake : byteText (bytes.take JsonReader.MAX_STRING_LENGTH) = byteText bytes) :
    fitsString v = true := by
  rw [fitsString_iff h]
  have hlength := congrArg List.length (byteText_injective htake)
  rw [List.length_take] at hlength
  omega

theorem optional_eq_some {α : Type} {read : Json → Option α} {default x : α} {key : String}
    (h : optional read default members key = some x) :
    ((JsonReader.find members key.toList).bind read).getD default = x ∧
      ∀ v, JsonReader.find members key.toList = some v → read v = some x := by
  unfold optional at h
  cases hfind : JsonReader.find members key.toList with
  | none =>
    rw [hfind] at h
    cases h
    exact ⟨rfl, fun v hv => nomatch hv⟩
  | some v =>
    rw [hfind] at h
    dsimp only at h
    rw [Option.bind_some, h]
    exact ⟨rfl, fun v' hv' => by cases hv'; exact h⟩

theorem optional_of_fits {α : Type} (read : Json → Option α) (default : α) {key : String}
    (h : ∀ v, JsonReader.find members key.toList = some v → ∃ x, read v = some x) :
    ∃ x, optional read default members key = some x := by
  unfold optional
  cases hfind : JsonReader.find members key.toList with
  | none => exact ⟨default, rfl⟩
  | some v => exact h v hfind

theorem string_stored_iff {key : List Char} {bytes : List UInt8}
    (h : (JsonReader.find members key).bind asString = some bytes) :
    byteText (bytes.take JsonReader.MAX_STRING_LENGTH) = byteText bytes ↔
      ∀ v, JsonReader.find members key = some v → fitsString v = true := by
  obtain ⟨v, hfind, hv⟩ := Option.bind_eq_some_iff.mp h
  constructor
  · intro htake v' hv'
    rw [hfind, Option.some_inj] at hv'
    subst hv'
    exact fits_of_take hv htake
  · intro hfits
    rw [take_of_fits hv (hfits v hfind)]

theorem unsigned_stored_iff (bits : Nat) {key : List Char} {n : Nat}
    (h : (JsonReader.find members key).bind asUnsigned = some n) :
    n % 2 ^ bits = n ↔ ∀ v, JsonReader.find members key = some v → fitsUnsigned bits v = true := by
  obtain ⟨v, hfind, hv⟩ := Option.bind_eq_some_iff.mp h
  constructor
  · intro hmod v' hv'
    rw [hfind, Option.some_inj] at hv'
    subst hv'
    rw [fitsUnsigned_iff hv, ← hmod]
    exact Nat.mod_lt _ (Nat.two_pow_pos bits)
  · intro hfits
    exact Nat.mod_eq_of_lt ((fitsUnsigned_iff hv).mp (hfits v hfind))

/-- A missing member is stored as its default, which fits. -/
theorem optional_unsigned_iff (bits : Nat) {key : String} {n : Nat}
    (h : optional asUnsigned 0 members key = some n) :
    ((JsonReader.find members key.toList).bind asUnsigned).getD 0 % 2 ^ bits = n ↔
      ∀ v, JsonReader.find members key.toList = some v → fitsUnsigned bits v = true := by
  obtain ⟨hvalue, hread⟩ := optional_eq_some h
  cases hfind : JsonReader.find members key.toList with
  | none =>
    rw [hfind] at hvalue
    cases hvalue
    exact ⟨fun _ v hv => (nomatch hv), fun _ => Nat.zero_mod _⟩
  | some v =>
    rw [← hfind, hvalue]
    exact unsigned_stored_iff bits (by rw [hfind]; exact hread v hfind)

theorem optional_string_iff {key : String} {bytes : List UInt8}
    (h : optional asString [] members key = some bytes) :
    byteText ((JsonReader.getString ⟨some members⟩ key.toList).getD []) = byteText bytes ↔
      ∀ v, JsonReader.find members key.toList = some v → fitsString v = true := by
  obtain ⟨hvalue, hread⟩ := optional_eq_some h
  rw [getString_eq]
  cases hfind : JsonReader.find members key.toList with
  | none =>
    rw [hfind] at hvalue
    cases hvalue
    exact ⟨fun _ v hv => (nomatch hv), fun _ => rfl⟩
  | some v =>
    have hbind : (JsonReader.find members key.toList).bind asString = some bytes := by
      rw [hfind]
      exact hread v hfind
    rw [← hfind, hbind]
    exact string_stored_iff hbind

/-- A field that is not read keeps its value only if it is not there. -/
theorem optional_none_iff {α : Type} {read : Json → Option α} {key : String} {x : Option α}
    (h : optional (fun v => (read v).map some) none members key = some x) :
    x = none ↔ JsonReader.find members key.toList = none := by
  obtain ⟨hvalue, hread⟩ := optional_eq_some h
  cases hfind : JsonReader.find members key.toList with
  | none =>
    rw [hfind] at hvalue
    cases hvalue
    exact ⟨fun _ => rfl, fun _ => rfl⟩
  | some v =>
    obtain ⟨y, -, rfl⟩ := Option.map_eq_some_iff.mp (hread v hfind)
    exact ⟨fun h => (nomatch h), fun h => (nomatch h)⟩

/-- What the handler reads, in terms of what the members have. -/
theorem readNode_eq_some {h : Heartbeat} (hread : readNode ⟨some members⟩ = some h) :
    ∃ nodeId host, (JsonReader.find members "nodeId".toList).bind asString = some nodeId ∧
      (JsonReader.find members "host".toList).bind asString = some host ∧
      (JsonReader.find members "restPort".toList).bind asUnsigned = some h.restPort ∧
      h.nodeId = byteText (nodeId.take JsonReader.MAX_STRING_LENGTH) ∧
      h.host = byteText (host.take JsonReader.MAX_STRING_LENGTH) ∧
      h.activeQueries =
        ((JsonReader.find members "activeQueries".toList).bind asUnsigned).getD 0 ∧
      h.connectionCount =
        ((JsonReader.find members "connectionCount".toList).bind asUnsigned).getD 0 ∧
      h.region =
        byteText ((JsonReader.getString ⟨some members⟩ "region".toList).getD []) := by
  obtain ⟨nodeId, hnodeId, hread⟩ := Option.bind_eq_some_iff.mp hread
  obtain ⟨host, hhost, hread⟩ := Option.bind_eq_some_iff.mp hread
  obtain ⟨restPort, hrestPort, hread⟩ := Option.bind_eq_some_iff.mp hread
  rw [getString_eq] at hnodeId hhost
  rw [getUlong_eq] at hrestPort
  obtain ⟨idBytes, hidBytes, rfl⟩ := Option.map_eq_some_iff.mp hnodeId
  obtain ⟨hostBytes, hhostBytes, rfl⟩ := Option.map_eq_some_iff.mp hhost
  cases hread
  refine ⟨idBytes, hostBytes, hidBytes, hhostBytes, hrestPort, rfl, rfl, ?_, ?_, rfl⟩
  · dsimp only
    rw [getUlong_eq]
  · dsimp only
    rw [getUlong_eq]

variable {K : Type} {casts : NumberCasts K} {carried : CarriedNode}

theorem carriedNode_eq_some (h : carriedNode casts members = some carried) :
    ∃ nodeId host region, (JsonReader.find members "nodeId".toList).bind asString = some nodeId ∧
      (JsonReader.find members "host".toList).bind asString = some host ∧
      (JsonReader.find members "restPort".toList).bind asUnsigned = some carried.restPort ∧
      optional asUnsigned 0 members "activeQueries" = some carried.activeQueries ∧
      optional asUnsigned 0 members "connectionCount" = some carried.connectionCount ∧
      optional asString [] members "region" = some region ∧
      optional (fun v => (asLoad casts v).map some) none members "cpuLoad" =
        some carried.cpuLoad ∧
      optional (fun v => (asStrings v).map some) none members "capabilities" =
        some carried.capabilities ∧
      carried.nodeId = byteText nodeId ∧ carried.host = byteText host ∧
      carried.region = byteText region := by
  obtain ⟨nodeId, hnodeId, h⟩ := Option.bind_eq_some_iff.mp h
  obtain ⟨host, hhost, h⟩ := Option.bind_eq_some_iff.mp h
  obtain ⟨restPort, hrestPort, h⟩ := Option.bind_eq_some_iff.mp h
  obtain ⟨activeQueries, hactive, h⟩ := Option.bind_eq_some_iff.mp h
  obtain ⟨connectionCount, hcount, h⟩ := Option.bind_eq_some_iff.mp h
  obtain ⟨region, hregion, h⟩ := Option.bind_eq_some_iff.mp h
  obtain ⟨cpuLoad, hload, h⟩ := Option.bind_eq_some_iff.mp h
  obtain ⟨capabilities, hcapabilities, h⟩ := Option.bind_eq_some_iff.mp h
  cases h
  exact ⟨nodeId, host, region, hnodeId, hhost, hrestPort, hactive, hcount, hregion, hload,
    hcapabilities, rfl, rfl, rfl⟩

/-- Field by field. -/
theorem stored_iff_fits {h : Heartbeat} (hread : readNode ⟨some members⟩ = some h)
    (hcarried : carriedNode casts members = some carried) :
    Stored h carried ↔ FitsNode members := by
  obtain ⟨nodeId, host, hnodeId, hhost, hrestPort, hid, hhostEq, hactive, hcount, hregion⟩ :=
    readNode_eq_some hread
  obtain ⟨nodeId', host', region, hnodeId', hhost', hrestPort', hactive', hcount', hregion',
    hload, hcapabilities, hid', hhostEq', hregionEq⟩ := carriedNode_eq_some hcarried
  have hids : nodeId' = nodeId := Option.some_inj.mp (hnodeId'.symm.trans hnodeId)
  have hhosts : host' = host := Option.some_inj.mp (hhost'.symm.trans hhost)
  have hports : h.restPort = carried.restPort :=
    Option.some_inj.mp (hrestPort.symm.trans hrestPort')
  subst hids hhosts
  have hstrings := string_stored_iff hnodeId
  have hhostStored := string_stored_iff hhost
  have hport := unsigned_stored_iff 16 hrestPort'
  have hqueries := optional_unsigned_iff 32 hactive'
  have hconnections := optional_unsigned_iff 32 hcount'
  have hregions := optional_string_iff hregion'
  constructor
  · intro hstored
    refine ⟨hstrings.mp ?_, hhostStored.mp ?_, hport.mp ?_, hqueries.mp ?_, hconnections.mp ?_,
      hregions.mp ?_, (optional_none_iff hload).mp hstored.cpuLoad,
      (optional_none_iff hcapabilities).mp hstored.capabilities⟩
    · rw [← hid, ← hid', hstored.nodeId]
    · rw [← hhostEq, ← hhostEq', hstored.host]
    · rw [← hstored.restPort, hports, Nat.mod_mod]
    · rw [← hactive, hstored.activeQueries]
    · rw [← hcount, hstored.connectionCount]
    · rw [← hregion, ← hregionEq, hstored.region]
  · intro hfits
    refine ⟨?_, ?_, ?_, ?_, ?_, ?_, (optional_none_iff hload).mpr hfits.cpuLoad,
      (optional_none_iff hcapabilities).mpr hfits.capabilities⟩
    · rw [hid, hid', hstrings.mpr hfits.nodeId]
    · rw [hhostEq, hhostEq', hhostStored.mpr hfits.host]
    · rw [hports, hport.mpr hfits.restPort]
    · rw [hactive, hqueries.mpr hfits.activeQueries]
    · rw [hcount, hconnections.mpr hfits.connectionCount]
    · rw [hregion, hregionEq, hregions.mpr hfits.region]

theorem carriedNode_of_fits (casts : NumberCasts K) (hread : readNode ⟨some members⟩ ≠ none)
    (hfits : FitsNode members) : ∃ carried, carriedNode casts members = some carried := by
  obtain ⟨h, hread⟩ := Option.ne_none_iff_exists'.mp hread
  obtain ⟨nodeId, host, hnodeId, hhost, hrestPort, -⟩ := readNode_eq_some hread
  obtain ⟨activeQueries, hactive⟩ := optional_of_fits asUnsigned 0
    fun v hv => asUnsigned_of_fits (hfits.activeQueries v hv)
  obtain ⟨connectionCount, hcount⟩ := optional_of_fits asUnsigned 0
    fun v hv => asUnsigned_of_fits (hfits.connectionCount v hv)
  obtain ⟨region, hregion⟩ := optional_of_fits asString []
    fun v hv => asString_of_fits (hfits.region v hv)
  unfold carriedNode
  rw [hnodeId, hhost, hrestPort, hactive, hcount, hregion, optional, optional, hfits.cpuLoad,
    hfits.capabilities]
  exact ⟨_, rfl⟩

/-! ## Scores -/

theorem asUnsigned_lt {v : Json} {n : Nat} (h : asUnsigned v = some n) : n < 2 ^ 64 := by
  cases v with
  | num m =>
    unfold asUnsigned at h
    dsimp only at h
    split at h
    · rename_i hm
      cases h
      unfold JsonReader.isUnsigned at hm
      simp only [Bool.and_eq_true, decide_eq_true_eq] at hm
      exact hm.2
    · cases h
  | _ => cases h

/-- What is carried as unsigned is read without a change. -/
theorem getAsUlong_of_asUnsigned {v : Json} {n : Nat} (h : asUnsigned v = some n) :
    getAsUlong casts v = some n := by
  cases v with
  | num m =>
    unfold asUnsigned at h
    dsimp only at h
    split at h
    · rename_i hm
      rw [← h]
      exact if_pos hm
    · cases h
  | _ => cases h

theorem fitsEntry_of_carried {entry : Json × Json × Json} {e : ScoreEntry K}
    (h : carriedEntry casts entry = some e) : fitsEntry entry = true := by
  obtain ⟨peerId, score, interactions⟩ := entry
  obtain ⟨p, hpeerId, h⟩ := Option.bind_eq_some_iff.mp h
  obtain ⟨s, hscore, h⟩ := Option.bind_eq_some_iff.mp h
  obtain ⟨i, hinteractions, -⟩ := Option.bind_eq_some_iff.mp h
  have hnumber : isNumber score = true := by
    cases score with
    | num n => rfl
    | _ => cases hscore
  unfold fitsEntry
  dsimp only
  rw [(fitsUnsigned_iff hpeerId).mpr (asUnsigned_lt hpeerId), hnumber,
    (fitsUnsigned_iff hinteractions).mpr (asUnsigned_lt hinteractions)]
  rfl

/-- An entry that fits is carried, and read as it is carried. -/
theorem carried_of_fitsEntry (casts : NumberCasts K) {peerId score interactions : Json}
    (h : fitsEntry (peerId, score, interactions) = true) :
    ∃ e : ScoreEntry K, carriedEntry casts (peerId, score, interactions) = some e ∧
      getAsUlong casts peerId = some e.peerId ∧ getAsDouble casts score = some e.score ∧
      getAsUlong casts interactions = some e.interactions := by
  unfold fitsEntry at h
  rw [Bool.and_eq_true, Bool.and_eq_true] at h
  obtain ⟨⟨hpeerId, hscore⟩, hinteractions⟩ := h
  obtain ⟨p, hp⟩ := asUnsigned_of_fits hpeerId
  obtain ⟨i, hi⟩ := asUnsigned_of_fits hinteractions
  cases score with
  | num n =>
    refine ⟨⟨p, casts.double n, i⟩, ?_, getAsUlong_of_asUnsigned hp, rfl,
      getAsUlong_of_asUnsigned hi⟩
    unfold carriedEntry
    dsimp only
    rw [hp, hi]
    rfl
  | _ => cases hscore

theorem typed_of_carried {entries : List (ScoreEntry K)}
    (h : carriedScores casts members = some entries) :
    ∀ entry ∈ (scoreItems members).filterMap entryMembers, fitsEntry entry = true := by
  unfold carriedScores at h
  generalize (scoreItems members).filterMap entryMembers = items at h ⊢
  induction items generalizing entries with
  | nil => exact fun entry hentry => nomatch hentry
  | cons item items ih =>
    rw [List.mapM_cons] at h
    obtain ⟨e, he, h⟩ := Option.bind_eq_some_iff.mp h
    obtain ⟨rest, hrest, -⟩ := Option.bind_eq_some_iff.mp h
    intro entry hentry
    rcases List.mem_cons.mp hentry with rfl | hentry
    · exact fitsEntry_of_carried he
    · exact ih hrest entry hentry

theorem reachesMinimum_iff {entry : Json × Json × Json} {e : ScoreEntry K}
    (h : carriedEntry casts entry = some e) :
    reachesMinimum entry = true ↔ 10 ≤ e.interactions := by
  obtain ⟨peerId, score, interactions⟩ := entry
  obtain ⟨p, -, h⟩ := Option.bind_eq_some_iff.mp h
  obtain ⟨s, -, h⟩ := Option.bind_eq_some_iff.mp h
  obtain ⟨i, hinteractions, h⟩ := Option.bind_eq_some_iff.mp h
  cases h
  unfold reachesMinimum
  dsimp only
  rw [hinteractions]
  exact decide_eq_true_iff

/-- Nothing is passed over exactly if all entries reach the minimum. -/
theorem counted_iff_of_carried {entries : List (ScoreEntry K)}
    (h : carriedScores casts members = some entries) :
    (∀ entry ∈ (scoreItems members).filterMap entryMembers, reachesMinimum entry = true) ↔
      RatingEngine.mergedEntries entries 10 = entries := by
  unfold RatingEngine.mergedEntries
  rw [List.filter_eq_self]
  simp only [decide_eq_true_eq]
  unfold carriedScores at h
  generalize (scoreItems members).filterMap entryMembers = items at h ⊢
  induction items generalizing entries with
  | nil =>
    cases h
    exact iff_of_true (fun entry hentry => nomatch hentry) fun e he => nomatch he
  | cons item items ih =>
    rw [List.mapM_cons] at h
    obtain ⟨e, he, h⟩ := Option.bind_eq_some_iff.mp h
    obtain ⟨rest, hrest, h⟩ := Option.bind_eq_some_iff.mp h
    cases h
    rw [List.forall_mem_cons, List.forall_mem_cons]
    exact and_congr (reachesMinimum_iff he) (ih hrest)

/-- The loop reads the entries that are carried, and skips the other items. -/
theorem readScores_of_fits (items : List Json)
    (h : ∀ entry ∈ items.filterMap entryMembers, fitsEntry entry = true) :
    ∃ entries, (items.filterMap entryMembers).mapM (carriedEntry casts) = some entries ∧
      readScores casts items = some entries := by
  induction items with
  | nil => exact ⟨[], rfl, rfl⟩
  | cons item items ih =>
    unfold readScores
    cases hmembers : entryMembers item with
    | none =>
      rw [List.filterMap_cons_none hmembers] at h ⊢
      exact ih h
    | some entry =>
      obtain ⟨peerId, score, interactions⟩ := entry
      rw [List.filterMap_cons_some hmembers] at h ⊢
      obtain ⟨e, hcarried, hpeerId, hscore, hinteractions⟩ :=
        carried_of_fitsEntry casts (h _ List.mem_cons_self)
      obtain ⟨entries, hentries, hread⟩ :=
        ih fun entry hentry => h entry (List.mem_cons_of_mem _ hentry)
      refine ⟨e :: entries, ?_, ?_⟩
      · rw [List.mapM_cons, hcarried, hentries]
        rfl
      · dsimp only
        rw [hpeerId, hscore, hinteractions, hread]
        rfl

/-! ## The table -/

/-- What is stored of a heartbeat. -/
theorem recorded_iff {c : ClusterCoordinator} {now : Nat} {h : Heartbeat}
    (hid : h.nodeId = carried.nodeId) :
    Recorded c now carried (c.handleClusterHeartbeat now h) ↔
      h.host = carried.host ∧ h.restPort % 2 ^ 16 = carried.restPort ∧
        h.activeQueries % 2 ^ 32 = carried.activeQueries ∧
        h.connectionCount % 2 ^ 32 = carried.connectionCount ∧ h.region = carried.region ∧
        carried.cpuLoad.getD (c.known carried.nodeId).cpuLoadEstimate =
          (c.known carried.nodeId).cpuLoadEstimate ∧
        carried.capabilities.getD (c.known carried.nodeId).capabilities =
          (c.known carried.nodeId).capabilities := by
  have hfind : (c.handleClusterHeartbeat now h).nodes.find carried.nodeId = some
      { c.known carried.nodeId with
        nodeId := carried.nodeId, host := h.host, restPort := UInt16.ofNat h.restPort
        activeQueries := h.activeQueries % 2 ^ 32, connectionCount := h.connectionCount % 2 ^ 32
        region := h.region, lastHeartbeat := now } := by
    unfold handleClusterHeartbeat known
    rw [hid, UMap.find_assign, if_pos rfl]
  have hport : (UInt16.ofNat h.restPort).toNat = h.restPort % 2 ^ 16 := rfl
  constructor
  · rintro ⟨⟨node, hnode, -, hhost, hrest, hactive, hcount, hregion, hload, hcaps, -, -⟩, -, -⟩
    rw [hfind, Option.some_inj] at hnode
    subst hnode
    exact ⟨hhost, hport.symm.trans hrest, hactive, hcount, hregion, hload.symm, hcaps.symm⟩
  · rintro ⟨hhost, hrest, hactive, hcount, hregion, hload, hcaps⟩
    refine ⟨⟨_, hfind, rfl, hhost, hport.trans hrest, hactive, hcount, hregion, hload.symm,
      hcaps.symm, rfl, rfl⟩, fun id hne => ?_, rfl⟩
    unfold handleClusterHeartbeat
    rw [UMap.find_assign, if_neg (hid ▸ hne)]

/-! ## Requests -/

theorem document_of_new {library : JsonLibrary} {body : List UInt8}
    (h : JsonReader.new library body = some ⟨some members⟩) :
    library.parse body = .document (.object members) := by
  unfold JsonReader.new at h
  split at h
  · cases h
  · split at h
    · cases h
    · cases h
    · next v hparse =>
      split at h
      · cases h
        exact hparse
      · cases h
    · cases h

variable [Field K] [LinearOrder K]

/-- One pass of the loop. -/
theorem find_mergeEntry (engine : RatingEngine K) (now : Nat) (entry : ScoreEntry K)
    (hminimum : 10 ≤ entry.interactions) (peerId : Nat) :
    (engine.mergeEntry 10 now entry).ratings.find peerId =
      if entry.peerId = peerId then
        some (RatingEngine.takenIn now entry (engine.ratings.find peerId))
      else engine.ratings.find peerId := by
  unfold RatingEngine.mergeEntry
  rw [if_neg (Nat.not_lt.mpr hminimum)]
  cases hfind : engine.ratings.find entry.peerId with
  | none =>
    dsimp only
    rw [UMap.find_assign]
    by_cases heq : peerId = entry.peerId
    · subst heq
      rw [if_pos rfl, if_pos rfl, hfind]
      rfl
    · rw [if_neg heq, if_neg (Ne.symm heq)]
  | some rating =>
    dsimp only
    rw [UMap.find_assign]
    by_cases heq : peerId = entry.peerId
    · subst heq
      rw [if_pos rfl, if_pos rfl, hfind]
      rfl
    · rw [if_neg heq, if_neg (Ne.symm heq)]

/-- The loop takes the entries in that it does not pass over. -/
theorem recordedScores_mergeRemoteScores (engine : RatingEngine K) (now : Nat)
    (entries : List (ScoreEntry K)) :
    RecordedScores engine now (RatingEngine.mergedEntries entries 10)
      (engine.mergeRemoteScores entries 10 now) := by
  induction entries generalizing engine with
  | nil => exact fun peerId => rfl
  | cons entry entries ih =>
    intro peerId
    refine (ih (engine.mergeEntry 10 now entry) peerId).trans ?_
    by_cases hminimum : 10 ≤ entry.interactions
    · have hcons : RatingEngine.mergedEntries (entry :: entries) 10 =
          entry :: RatingEngine.mergedEntries entries 10 :=
        List.filter_cons_of_pos (decide_eq_true hminimum)
      rw [hcons, find_mergeEntry engine now entry hminimum, List.filter_cons]
      by_cases heq : entry.peerId = peerId
      · rw [if_pos heq, if_pos (decide_eq_true heq), List.foldl_cons]
      · rw [if_neg heq, if_neg (by simpa using heq)]
    · have hcons : RatingEngine.mergedEntries (entry :: entries) 10 =
          RatingEngine.mergedEntries entries 10 :=
        List.filter_cons_of_neg (by simpa using hminimum)
      have hsame : engine.mergeEntry 10 now entry = engine := if_pos (Nat.not_le.mp hminimum)
      rw [hcons, hsame]

theorem peerScores_of_new {library : JsonLibrary} {body : List UInt8}
    (h : JsonReader.new library body = some ⟨some members⟩) :
    peerScores library body = scoreItems members := by
  unfold peerScores
  rw [document_of_new h]

section Accepted

variable {library : JsonLibrary} {request : HttpRequest} {h : Heartbeat}
  (hnew : JsonReader.new library request.body = some ⟨some members⟩)
  (hread : readNode ⟨some members⟩ = some h)

include hnew hread

/-- The node is in the table when an entry cannot be read. -/
theorem handleHeartbeatRequest_threw (hscores : readScores casts (scoreItems members) = none)
    (c : ClusterCoordinator) (engine : RatingEngine K) (now mergedAt : Nat) :
    handleHeartbeatRequest library casts c engine now mergedAt request =
      ⟨c.handleClusterHeartbeat now h, engine, [], .threw⟩ := by
  unfold handleHeartbeatRequest
  rw [hnew]
  dsimp only
  rw [hread]
  dsimp only
  rw [peerScores_of_new hnew, hscores]

theorem handleHeartbeatRequest_accepted {remoteScores : List (ScoreEntry K)}
    (hscores : readScores casts (scoreItems members) = some remoteScores)
    (c : ClusterCoordinator) (engine : RatingEngine K) (now mergedAt : Nat) :
    handleHeartbeatRequest library casts c engine now mergedAt request =
      ⟨c.handleClusterHeartbeat now h, engine.mergeRemoteScores remoteScores 10 mergedAt,
        RatingEngine.mergedEntries remoteScores 10, .accepted⟩ := by
  unfold handleHeartbeatRequest
  rw [hnew]
  dsimp only
  rw [hread]
  dsimp only
  rw [peerScores_of_new hnew, hscores]
  cases remoteScores with
  | nil => rfl
  | cons => rfl

/-- Where the request is taken, the body carries a node and entries, the node is recorded, and no
entry is passed over. -/
theorem carried_of_atomic {c : ClusterCoordinator} {engine : RatingEngine K} {now mergedAt : Nat}
    (hatomic : Atomic library casts request c engine now mergedAt
      (handleHeartbeatRequest library casts c engine now mergedAt request)) :
    ∃ carried, carriedNode casts members = some carried ∧ FitsScores members ∧
      Recorded c now carried (c.handleClusterHeartbeat now h) := by
  cases hscores : readScores casts (scoreItems members) with
  | none =>
    rw [handleHeartbeatRequest_threw hnew hread hscores] at hatomic
    exact hatomic.elim
  | some remoteScores =>
    rw [handleHeartbeatRequest_accepted hnew hread hscores] at hatomic
    obtain ⟨members', carried, entries, hparse, hcarried, hentries, hrecorded, hmerged, -⟩ :=
      hatomic
    rw [document_of_new hnew] at hparse
    cases hparse
    have htyped := typed_of_carried hentries
    obtain ⟨entries', hentries', hread'⟩ := @readScores_of_fits K casts _ htyped
    obtain rfl : entries' = entries := Option.some_inj.mp (hentries'.symm.trans hentries)
    obtain rfl : remoteScores = entries' := Option.some_inj.mp (hscores.symm.trans hread')
    exact ⟨carried, hcarried, ⟨htyped, (counted_iff_of_carried hentries).mpr hmerged⟩, hrecorded⟩

end Accepted

/-- A node that knows others, and is alone otherwise. -/
def knowing (nodes : UMap String NodeInfo) : ClusterCoordinator :=
  { nodeId := "", localHost := "", localRegion := "", restPort := 0, cpuLoad := 0
    isolated := false, nodes, dedupShards := fun _ => ∅ }

/-- What is recorded at a node that knows no other, and at one that has another load and other
capabilities for the node. -/
theorem stored_of_recorded (now : Nat) {h : Heartbeat}
    (hrecorded : ∀ c, Recorded c now carried (c.handleClusterHeartbeat now h)) :
    Stored h carried := by
  have hid : h.nodeId = carried.nodeId := by
    by_contra hne
    have hothers := (hrecorded (knowing ∅)).others h.nodeId hne
    unfold handleClusterHeartbeat at hothers
    rw [UMap.find_assign, if_pos rfl] at hothers
    cases hothers
  let other : NodeInfo :=
    { NodeInfo.empty with
      cpuLoadEstimate := carried.cpuLoad.getD 0 + 1
      capabilities := "" :: carried.capabilities.getD [] }
  have hknown : (knowing (UMap.assign ∅ carried.nodeId other)).known carried.nodeId = other := by
    unfold known knowing
    rw [UMap.find_assign, if_pos rfl, Option.getD_some]
  have hfields := (recorded_iff hid).mp (hrecorded (knowing (UMap.assign ∅ carried.nodeId other)))
  rw [hknown] at hfields
  obtain ⟨hhost, hport, hactive, hcount, hregion, hload, hcaps⟩ := hfields
  refine ⟨hid, hhost, hport, hactive, hcount, hregion, ?_, ?_⟩
  · cases hcarried : carried.cpuLoad with
    | none => rfl
    | some load =>
      dsimp only [other] at hload
      rw [hcarried] at hload
      exact absurd hload (ne_of_lt (lt_add_one load))
  · cases hcarried : carried.capabilities with
    | none => rfl
    | some capabilities =>
      dsimp only [other] at hcaps
      rw [hcarried] at hcaps
      exact absurd (congrArg List.length hcaps) (Nat.ne_of_lt (Nat.lt_succ_self _))

theorem recorded_of_stored {h : Heartbeat} (hstored : Stored h carried) (c : ClusterCoordinator)
    (now : Nat) : Recorded c now carried (c.handleClusterHeartbeat now h) := by
  rw [recorded_iff hstored.nodeId, hstored.cpuLoad, hstored.capabilities]
  exact ⟨hstored.host, hstored.restPort, hstored.activeQueries, hstored.connectionCount,
    hstored.region, rfl, rfl⟩

end Readings

variable {K : Type} [Field K] [LinearOrder K]

/-- A port that does not fit into 16 bits. -/
def portBody : List UInt8 :=
  utf8 "\x7b\"nodeId\":\"n\",\"host\":\"h\",\"restPort\":70000\x7d".toList

def portMembers : List (List Char × Json) :=
  [("nodeId".toList, .str ['n']), ("host".toList, .str ['h']),
    ("restPort".toList, .num (JsonNumber.ofNat 70000))]

/-- A score whose peer is a string. -/
def scoreBody : List UInt8 :=
  utf8 ("\x7b\"nodeId\":\"n\",\"host\":\"h\",\"restPort\":1,".toList ++
    "\"peerScores\":[\x7b\"peerId\":\"x\",\"score\":0,\"interactions\":0\x7d]\x7d".toList)

def scoreMembers : List (List Char × Json) :=
  [("nodeId".toList, .str ['n']), ("host".toList, .str ['h']),
    ("restPort".toList, .num (JsonNumber.ofNat 1)),
    ("peerScores".toList, .array [.object [("peerId".toList, .str ['x']),
      ("score".toList, .num (JsonNumber.ofNat 0)),
      ("interactions".toList, .num (JsonNumber.ofNat 0))]])]

/-- An entry with less than ten interactions. -/
def fewBody : List UInt8 :=
  utf8 ("\x7b\"nodeId\":\"n\",\"host\":\"h\",\"restPort\":1,".toList ++
    "\"peerScores\":[\x7b\"peerId\":7,\"score\":0,\"interactions\":5\x7d]\x7d".toList)

def fewMembers : List (List Char × Json) :=
  [("nodeId".toList, .str ['n']), ("host".toList, .str ['h']),
    ("restPort".toList, .num (JsonNumber.ofNat 1)),
    ("peerScores".toList, .array [.object [("peerId".toList, .num (JsonNumber.ofNat 7)),
      ("score".toList, .num (JsonNumber.ofNat 0)),
      ("interactions".toList, .num (JsonNumber.ofNat 5))]])]

def heartbeatLibrary : JsonLibrary where
  parse body :=
    if body = portBody then .document (.object portMembers)
    else if body = scoreBody then .document (.object scoreMembers)
    else if body = fewBody then .document (.object fewMembers)
    else .parseError
  fits _ := true

def wholeCasts : NumberCasts ℚ := ⟨fun n => n.integer, fun n => n.integer, fun n => n.integer⟩

def heartbeatPost (body : List UInt8) : HttpRequest := ⟨utf8 "POST".toList, [], body, ∅, ∅⟩

end ClusterCoordinator

end Alpine
