import Alpine.RestBridge.HttpServer

/-!
# Connections over time

`Accounted` says what the counts of the server stand for in every state. A step moves one connection
from a place to another, and the counts go with it (`Books.moved`, `Placed.moved`). So they are
right in every run in which the count is not raised past the limit between a look and its increment,
the queue gives out no connection of the TLS acceptor, and no session is started
(`along_accounted`).
-/

namespace Alpine

open Lib

namespace Place

/-- The handler of a connection that was dispatched. -/
def handler : Place → Option Protocol
  | arrived | admitted | refused | queued | rejected => none
  | posted handler | guarded handler _ | holding handler _ | leaving handler _ _ _
  | session handler _ | finished handler => some handler

/-- Dispatched, and the handler or its session is not done. -/
def unfinished : Place → Bool
  | arrived | admitted | refused | queued | rejected | finished _ => false
  | posted _ | guarded _ _ | holding _ _ | leaving _ _ _ _ | session _ _ => true

/-- The connection has a slot of the address. -/
def holds (clientIp : ClientIp) : Place → Bool
  | holding _ ip | session _ ip => ip = clientIp
  | leaving _ ip slot running => (slot || running) && ip = clientIp
  | _ => false

def inHand : Place → Bool
  | arrived | admitted | refused => true
  | _ => false

/-- A session has the socket. -/
def inSession : Place → Bool
  | leaving _ _ _ running => running
  | session _ _ => true
  | _ => false

theorem of_handler {place : Place} (h : place.handler.isSome = true) :
    place.inHand = false ∧ place ≠ queued := by
  cases place <;> simp_all [handler, inHand]

def clientIp : Place → Option ClientIp
  | guarded _ ip | holding _ ip | leaving _ ip _ _ | session _ ip => some ip
  | _ => none

end Place

namespace HttpServer

/-- How many connections are at a place of this kind. -/
def population (server : HttpServer) (p : Place → Bool) : Int :=
  server.connections.countBy fun _ connection => p connection.place

/-- A queued connection gets a handler if the drain runs alone for a round. -/
def Drained (limits : HttpLimits) (server : HttpServer) : Prop :=
  ∀ id queue, server.connectionQueue = id :: queue →
    server.activeConnections < limits.maxConnections →
    ∃ n ≤ 3, ∃ connection, (((machine limits).run server
      (List.replicate n .drainStep)).1).connections.find id = some connection ∧
      connection.place.handler.isSome = true

/-- What holds of the counts, the queue and the handlers. -/
structure Accounted (limits : HttpLimits) (server : HttpServer) : Prop where
  active : server.activeConnections = server.population Place.unfinished
  room : server.activeConnections ≤ limits.maxConnections
  slots : ∀ clientIp,
    (server.counts.find clientIp).getD 0 = server.population (Place.holds clientIp)
  perIp : ∀ clientIp, (server.counts.find clientIp).getD 0 ≤ limits.maxConnectionsPerIp
  onePlace : ∀ id connection, server.connections.find id = some connection →
    server.acceptors connection.protocol ≠ some id →
    (connection.place.handler.isSome = true ∧ id ∉ server.connectionQueue) ∨
    (connection.place = .queued ∧ server.connectionQueue.count id = 1) ∨
    (connection.place = .rejected ∧ id ∉ server.connectionQueue)
  protocol : ∀ id connection handler, server.connections.find id = some connection →
    connection.place.handler = some handler → handler = connection.protocol
  drained : Drained limits server

/-- The count is below the limit when it is raised; the queue gives out a plain connection; no
address is empty; and no session is started. -/
def StepFits (limits : HttpLimits) (server : HttpServer) : ServerCall → Prop
  | .acceptorStep protocol => ∀ id connection, server.acceptors protocol = some id →
      server.connections.find id = some connection → connection.place = .admitted →
      server.activeConnections < limits.maxConnections
  | .drainStep => server.drain = .found → server.activeConnections < limits.maxConnections ∧
      ∀ id queue connection, server.connectionQueue = id :: queue →
        server.connections.find id = some connection → connection.protocol = .plain
  | .setUp _ clientIp => clientIp ≠ some []
  | .upgradeToWebSocket id => ∀ connection clientIp,
      server.connections.find id = some connection → connection.place ≠ .holding .plain clientIp
  | _ => True

/-! ## What a step does to the counts -/

structure Books (limits : HttpLimits) (server : HttpServer) : Prop where
  active : server.activeConnections = server.population Place.unfinished
  room : server.activeConnections ≤ limits.maxConnections
  slots : ∀ clientIp,
    (server.counts.find clientIp).getD 0 = server.population (Place.holds clientIp)
  perIp : ∀ clientIp, (server.counts.find clientIp).getD 0 ≤ limits.maxConnectionsPerIp
  protocol : ∀ id connection handler, server.connections.find id = some connection →
    connection.place.handler = some handler → handler = connection.protocol
  noSession : ∀ id connection, server.connections.find id = some connection →
    connection.place.inSession = false
  address : ∀ id connection, server.connections.find id = some connection →
    connection.place.clientIp ≠ some []

/-- Where the connections are that are not dispatched. -/
structure Placed (server : HttpServer) : Prop where
  fresh : ∀ id connection, server.connections.find id = some connection → id < server.arrivals
  hand : ∀ protocol id, server.acceptors protocol = some id ↔
    ∃ place, server.connections.find id = some ⟨protocol, place⟩ ∧ place.inHand = true
  queued : ∀ id, id ∈ server.connectionQueue ↔
    ∃ connection, server.connections.find id = some connection ∧ connection.place = .queued
  nodup : server.connectionQueue.Nodup

section Moved

variable {limits : HttpLimits} {server server' : HttpServer} {id : Nat} {connection : Connection}
  {place : Place}

theorem population_assign (hat : server.connections.find id = some connection)
    (hconnections : server'.connections =
      server.connections.assign id { connection with place := place }) (p : Place → Bool) :
    server'.population p + (p connection.place).toNat = server.population p + (p place).toNat := by
  have hcount := UMap.countBy_assign_some hat { connection with place := place }
    fun _ connection => p connection.place
  dsimp only at hcount
  unfold population
  rw [hconnections]
  omega

theorem Books.moved (hbooks : Books limits server)
    (hat : server.connections.find id = some connection)
    (hconnections : server'.connections =
      server.connections.assign id { connection with place := place })
    (hactive : server'.activeConnections + connection.place.unfinished.toNat =
      server.activeConnections + place.unfinished.toNat)
    (hroom : server'.activeConnections ≤ limits.maxConnections)
    (hslots : ∀ clientIp, (server'.counts.find clientIp).getD 0 +
        (connection.place.holds clientIp).toNat =
      (server.counts.find clientIp).getD 0 + (place.holds clientIp).toNat)
    (hperIp : ∀ clientIp, (server'.counts.find clientIp).getD 0 ≤ limits.maxConnectionsPerIp)
    (hprotocol : ∀ handler, place.handler = some handler → handler = connection.protocol)
    (hsession : place.inSession = false) (haddress : place.clientIp ≠ some []) :
    Books limits server' := by
  have hfind : ∀ other c, server'.connections.find other = some c →
      c = { connection with place := place } ∨ server.connections.find other = some c := by
    intro other c hc
    rw [hconnections, UMap.find_assign] at hc
    split at hc
    · exact .inl (Option.some.inj hc).symm
    · exact .inr hc
  constructor
  · have hcount := population_assign hat hconnections Place.unfinished
    have hold := hbooks.active
    omega
  · exact hroom
  · intro clientIp
    have hcount := population_assign hat hconnections (Place.holds clientIp)
    have hold := hbooks.slots clientIp
    have hnew := hslots clientIp
    omega
  · exact hperIp
  · intro other c handler hc hhandler
    obtain rfl | hc := hfind other c hc
    · exact hprotocol handler hhandler
    · exact hbooks.protocol other c handler hc hhandler
  · intro other c hc
    obtain rfl | hc := hfind other c hc
    · exact hsession
    · exact hbooks.noSession other c hc
  · intro other c hc
    obtain rfl | hc := hfind other c hc
    · exact haddress
    · exact hbooks.address other c hc

theorem Placed.moved (hplaced : Placed server)
    (hat : server.connections.find id = some connection)
    (hconnections : server'.connections =
      server.connections.assign id { connection with place := place })
    (harrivals : server'.arrivals = server.arrivals)
    (hacceptors : ∀ protocol other, server'.acceptors protocol = some other ↔
      if other = id then protocol = connection.protocol ∧ place.inHand = true
      else server.acceptors protocol = some other)
    (hqueue : ∀ other, other ∈ server'.connectionQueue ↔
      if other = id then place = .queued else other ∈ server.connectionQueue)
    (hnodup : server'.connectionQueue.Nodup) : Placed server' := by
  constructor
  · intro other c hc
    rw [hconnections, UMap.find_assign] at hc
    rw [harrivals]
    split at hc
    · next h => exact h ▸ hplaced.fresh id connection hat
    · exact hplaced.fresh other c hc
  · intro protocol other
    rw [hacceptors, hconnections, UMap.find_assign]
    split
    · constructor
      · rintro ⟨rfl, hhand⟩
        exact ⟨place, rfl, hhand⟩
      · rintro ⟨place', heq, hhand⟩
        cases heq
        exact ⟨rfl, hhand⟩
    · exact hplaced.hand protocol other
  · intro other
    rw [hqueue, hconnections, UMap.find_assign]
    split
    · constructor
      · exact fun h => ⟨_, rfl, h⟩
      · rintro ⟨c, heq, hc⟩
        cases heq
        exact hc
    · exact hplaced.queued other
  · exact hnodup

/-- A connection that was dispatched stays so. -/
theorem Placed.dispatched (hplaced : Placed server)
    (hat : server.connections.find id = some connection)
    (hold : connection.place.handler.isSome = true) (hnew : place.handler.isSome = true)
    (hconnections : server'.connections =
      server.connections.assign id { connection with place := place })
    (harrivals : server'.arrivals = server.arrivals)
    (hacceptors : server'.acceptors = server.acceptors)
    (hqueue : server'.connectionQueue = server.connectionQueue) : Placed server' := by
  refine hplaced.moved hat hconnections harrivals ?_ ?_ (hqueue ▸ hplaced.nodup)
  · intro protocol other
    rw [hacceptors]
    split
    · next h =>
      subst h
      rw [hplaced.hand, hat]
      constructor
      · rintro ⟨place', heq, hyes⟩
        cases heq
        rw [(Place.of_handler hold).1] at hyes
        cases hyes
      · rintro ⟨-, hyes⟩
        rw [(Place.of_handler hnew).1] at hyes
        cases hyes
    · rfl
  · intro other
    rw [hqueue]
    split
    · next h =>
      subst h
      rw [hplaced.queued, hat]
      constructor
      · rintro ⟨c, heq, hyes⟩
        cases heq
        exact absurd hyes (Place.of_handler hold).2
      · exact fun hyes => absurd hyes (Place.of_handler hnew).2
    · rfl

/-- What is kept of every state. -/
structure Kept (limits : HttpLimits) (server : HttpServer) : Prop where
  books : Books limits server
  placed : Placed server

/-- A handler's step that leaves the counts. -/
theorem Kept.handled (hkept : Kept limits server)
    (hat : server.connections.find id = some connection)
    (hold : connection.place.handler.isSome = true)
    (hhandler : place.handler = connection.place.handler)
    (hunfinished : place.unfinished = connection.place.unfinished)
    (hholds : ∀ clientIp, place.holds clientIp = connection.place.holds clientIp)
    (hsession : place.inSession = false) (haddress : place.clientIp ≠ some []) :
    Kept limits (server.move id connection place) := by
  constructor
  · refine hkept.books.moved hat rfl (by rw [hunfinished]; rfl) hkept.books.room ?_
      hkept.books.perIp ?_ hsession haddress
    · intro clientIp
      rw [hholds]
      rfl
    · intro handler h
      exact hkept.books.protocol id connection handler hat (hhandler ▸ h)
  · exact hkept.placed.dispatched hat hold (hhandler ▸ hold) rfl rfl rfl rfl

theorem Kept.setUp (hkept : Kept limits server) {clientIp : Option ClientIp}
    (hclientIp : clientIp ≠ some []) : Kept limits (server.setUp id clientIp) := by
  unfold HttpServer.setUp
  split
  · next protocol handler hat =>
    cases clientIp with
    | none =>
      constructor
      · refine hkept.books.moved hat rfl ?_ ?_ (fun _ => rfl) hkept.books.perIp ?_ rfl
          (by simp [Place.clientIp])
        · change server.activeConnections - 1 + 1 = server.activeConnections + 0
          omega
        · have hroom := hkept.books.room
          change server.activeConnections - 1 ≤ _
          omega
        · exact fun h hh => hkept.books.protocol id _ h hat hh
      · exact hkept.placed.dispatched hat rfl rfl rfl rfl rfl rfl
    | some ip =>
      refine hkept.handled hat rfl rfl rfl (fun _ => rfl) rfl ?_
      exact hclientIp
  · exact hkept

theorem Kept.acquireConnectionSlot (hkept : Kept limits server) :
    Kept limits (server.acquireConnectionSlot limits id) := by
  unfold HttpServer.acquireConnectionSlot
  split
  · next protocol handler ip hat =>
    have haddress : some ip ≠ some [] := hkept.books.address id _ hat
    have hhandler : ∀ h, some handler = some h → h = protocol :=
      fun h hh => hkept.books.protocol id _ h hat hh
    dsimp only
    split
    · constructor
      · refine hkept.books.moved hat rfl rfl hkept.books.room ?_ ?_ hhandler rfl haddress
        · intro other
          rw [UMap.find_assign]
          split
          · next h => rw [h]; simp [Place.holds]
          · simp [Place.holds]
        · intro other
          rw [UMap.find_assign]
          split
          · exact hkept.books.perIp ip
          · exact hkept.books.perIp other
      · exact hkept.placed.dispatched hat rfl rfl rfl rfl rfl rfl
    · next hlimit =>
      constructor
      · refine hkept.books.moved hat rfl rfl hkept.books.room ?_ ?_ hhandler rfl haddress
        · intro other
          rw [UMap.find_assign]
          split
          · next h => rw [h]; simp [Place.holds]
          · next h => simp [Place.holds, Ne.symm h]
        · intro other
          rw [UMap.find_assign]
          split
          · rw [Option.getD_some]
            omega
          · exact hkept.books.perIp other
      · exact hkept.placed.dispatched hat rfl rfl rfl rfl rfl rfl
  · exact hkept

theorem Kept.leave (hkept : Kept limits server) : Kept limits (server.leave id) := by
  unfold HttpServer.leave
  split
  · next protocol handler ip hat =>
    refine hkept.handled hat rfl rfl rfl (fun other => ?_) rfl (hkept.books.address id _ hat)
    simp [Place.holds]
  · next protocol handler ip hat =>
    refine hkept.handled hat rfl rfl rfl (fun other => ?_) rfl (hkept.books.address id _ hat)
    simp [Place.holds]
  · exact hkept

/-- The count of an address that holds a slot goes down by one. -/
theorem find_release {counts : UMap ClientIp Int} {ip : ClientIp}
    (h : 1 ≤ (counts.find ip).getD 0) (other : ClientIp) :
    ((releaseConnectionSlot counts ip).find other).getD 0 =
      (counts.find other).getD 0 - if other = ip then 1 else 0 := by
  unfold releaseConnectionSlot
  cases hfind : counts.find ip with
  | none =>
    rw [hfind] at h
    exact absurd h (by decide)
  | some count =>
    rw [hfind, Option.getD_some] at h
    dsimp only
    split
    · rw [UMap.find_erase]
      split
      · next heq =>
        rw [heq, hfind, Option.getD_none, Option.getD_some]
        omega
      · omega
    · rw [UMap.find_assign]
      split
      · next heq => rw [heq, hfind, Option.getD_some, Option.getD_some]
      · omega

theorem Kept.guardStep (hkept : Kept limits server) : Kept limits (server.guardStep id) := by
  unfold HttpServer.guardStep
  split
  · next protocol handler ip slot session hat =>
    have haddress : some ip ≠ some [] := hkept.books.address id _ hat
    have hhandler : ∀ h, some handler = some h → h = protocol :=
      fun h hh => hkept.books.protocol id _ h hat hh
    obtain rfl : session = false := hkept.books.noSession id _ hat
    cases slot with
    | true =>
      rw [if_pos rfl, if_pos fun h => haddress (congrArg some h)]
      have hone : 1 ≤ (server.counts.find ip).getD 0 := by
        have hmove : (server.move id ⟨protocol, .leaving handler ip true false⟩
          (.finished handler)).connections = _ := rfl
        have hcount := population_assign hat hmove (Place.holds ip)
        have hold := hkept.books.slots ip
        have hnonneg : 0 ≤ (server.move id ⟨protocol, .leaving handler ip true false⟩
          (.finished handler)).population (Place.holds ip) := Int.natCast_nonneg _
        simp only [Place.holds, Bool.or_false, Bool.true_and, decide_true, Bool.toNat_true,
          Bool.toNat_false] at hcount
        omega
      constructor
      · refine hkept.books.moved hat rfl rfl hkept.books.room ?_ ?_ hhandler rfl haddress
        · intro other
          rw [find_release hone]
          by_cases h : other = ip
          · subst h
            simp [Place.holds]
          · simp [Place.holds, h, Ne.symm h]
        · intro other
          rw [find_release hone]
          have hold := hkept.books.perIp other
          split
          · omega
          · omega
      · exact hkept.placed.dispatched hat rfl rfl rfl rfl rfl rfl
    | false =>
      rw [if_neg (by decide), if_neg (by decide)]
      constructor
      · refine hkept.books.moved hat rfl ?_ ?_ (fun other => ?_) hkept.books.perIp hhandler rfl
          (by simp [Place.clientIp])
        · change server.activeConnections - 1 + 1 = server.activeConnections + 0
          omega
        · have hroom := hkept.books.room
          change server.activeConnections - 1 ≤ _
          omega
        · simp only [Place.holds, Bool.or_self, Bool.false_and]
          rfl
      · exact hkept.placed.dispatched hat rfl rfl rfl rfl rfl rfl
  · exact hkept

/-- There is no session to close. -/
theorem Kept.closeSession (hkept : Kept limits server) : Kept limits (server.closeSession id) := by
  unfold HttpServer.closeSession
  split
  · next hat => cases hkept.books.noSession id _ hat
  · next hat => cases hkept.books.noSession id _ hat
  · exact hkept

theorem Kept.upgradeToWebSocket (hkept : Kept limits server)
    (hfits : StepFits limits server (.upgradeToWebSocket id)) :
    Kept limits (server.upgradeToWebSocket id) := by
  unfold HttpServer.upgradeToWebSocket
  split
  · next hat => exact absurd rfl (hfits _ _ hat)
  · exact hkept

/-- A connection arrives. -/
theorem Kept.accept (hkept : Kept limits server) (protocol : Protocol) :
    Kept limits (server.accept protocol) := by
  unfold HttpServer.accept
  split
  · exact hkept
  · next hidle =>
    have hnone : server.connections.find server.arrivals = none := by
      by_contra h
      obtain ⟨c, hc⟩ := Option.ne_none_iff_exists'.mp h
      exact Nat.lt_irrefl _ (hkept.placed.fresh _ c hc)
    have hpopulation : ∀ p : Place → Bool, p .arrived = false →
        ((server.connections.assign server.arrivals ⟨protocol, .arrived⟩).countBy
          fun _ connection => p connection.place) =
        server.connections.countBy fun _ connection => p connection.place := by
      intro p hp
      rw [UMap.countBy_assign_none hnone]
      dsimp only
      rw [hp]
      rfl
    have hfind : ∀ {other c}, (server.connections.assign server.arrivals
          ⟨protocol, .arrived⟩).find other = some c →
        (other = server.arrivals ∧ c = ⟨protocol, .arrived⟩) ∨
        server.connections.find other = some c := by
      intro other c hc
      rw [UMap.find_assign] at hc
      split at hc
      · next h => exact .inl ⟨h, (Option.some.inj hc).symm⟩
      · exact .inr hc
    constructor
    · constructor
      · unfold population
        rw [hpopulation _ rfl]
        exact hkept.books.active
      · exact hkept.books.room
      · intro ip
        unfold population
        rw [hpopulation _ rfl]
        exact hkept.books.slots ip
      · exact hkept.books.perIp
      · intro other c h hc hh
        obtain ⟨-, rfl⟩ | hc := hfind hc
        · cases hh
        · exact hkept.books.protocol other c h hc hh
      · intro other c hc
        obtain ⟨-, rfl⟩ | hc := hfind hc
        · rfl
        · exact hkept.books.noSession other c hc
      · intro other c hc
        obtain ⟨-, rfl⟩ | hc := hfind hc
        · simp [Place.clientIp]
        · exact hkept.books.address other c hc
    · constructor
      · intro other c hc
        dsimp only at hc ⊢
        obtain ⟨rfl, -⟩ | hc := hfind hc
        · exact Nat.lt_succ_self _
        · exact Nat.lt_succ_of_lt (hkept.placed.fresh other c hc)
      · intro protocol' other
        dsimp only
        by_cases hother : other = server.arrivals
        · subst hother
          rw [UMap.find_assign, if_pos rfl]
          by_cases hp : protocol' = protocol
          · subst hp
            rw [Function.update_self]
            exact ⟨fun _ => ⟨.arrived, rfl, rfl⟩, fun _ => rfl⟩
          · rw [Function.update_of_ne hp, hkept.placed.hand, hnone]
            constructor
            · rintro ⟨place, h, -⟩
              cases h
            · rintro ⟨place, h, -⟩
              cases h
              exact absurd rfl hp
        · rw [UMap.find_assign, if_neg hother, ← hkept.placed.hand]
          by_cases hp : protocol' = protocol
          · subst hp
            rw [Function.update_self, hidle]
            constructor
            · intro h
              exact absurd (Option.some.inj h).symm hother
            · intro h
              cases h
          · rw [Function.update_of_ne hp]
      · intro other
        dsimp only
        rw [hkept.placed.queued]
        constructor
        · rintro ⟨c, hc, hqueued⟩
          refine ⟨c, ?_, hqueued⟩
          rw [UMap.find_assign, if_neg, hc]
          rintro rfl
          rw [hnone] at hc
          cases hc
        · rintro ⟨c, hc, hqueued⟩
          obtain ⟨-, rfl⟩ | hc := hfind hc
          · cases hqueued
          · exact ⟨c, hc, hqueued⟩
      · exact hkept.placed.nodup

/-- The acceptor whose connection has gone to a place outside of its hands. -/
theorem acceptors_done (hplaced : Placed server) {protocol : Protocol} {old new : Place}
    (hat : server.connections.find id = some ⟨protocol, old⟩) (hold : old.inHand = true)
    (hnew : new.inHand = false) (protocol' : Protocol) (other : Nat) :
    Function.update server.acceptors protocol none protocol' = some other ↔
      if other = id then protocol' = protocol ∧ new.inHand = true
      else server.acceptors protocol' = some other := by
  have hmine : server.acceptors protocol = some id :=
    (hplaced.hand protocol id).mpr ⟨old, hat, hold⟩
  by_cases hp : protocol' = protocol
  · subst hp
    rw [Function.update_self, hmine, hnew]
    split
    · simp
    · next h => simp [Ne.symm h]
  · rw [Function.update_of_ne hp]
    split
    · next h =>
      subst h
      rw [hplaced.hand, hat]
      constructor
      · rintro ⟨place, heq, -⟩
        cases heq
        exact absurd rfl hp
      · rintro ⟨heq, -⟩
        exact absurd heq hp
    · rfl

/-- The acceptor whose connection stays in its hands. -/
theorem acceptors_same (hplaced : Placed server) {protocol : Protocol} {old new : Place}
    (hat : server.connections.find id = some ⟨protocol, old⟩) (hold : old.inHand = true)
    (hnew : new.inHand = true) (protocol' : Protocol) (other : Nat) :
    server.acceptors protocol' = some other ↔
      if other = id then protocol' = protocol ∧ new.inHand = true
      else server.acceptors protocol' = some other := by
  split
  · next h =>
    subst h
    rw [hplaced.hand, hat, hnew]
    constructor
    · rintro ⟨place, heq, -⟩
      cases heq
      exact ⟨rfl, rfl⟩
    · rintro ⟨rfl, -⟩
      exact ⟨old, rfl, hold⟩
  · rfl

/-- A connection outside of the queue that stays so. -/
theorem queue_same (hplaced : Placed server)
    (hat : server.connections.find id = some connection) (hold : connection.place ≠ .queued)
    (hnew : place ≠ .queued) (other : Nat) : other ∈ server.connectionQueue ↔
      if other = id then place = .queued else other ∈ server.connectionQueue := by
  split
  · next h =>
    subst h
    rw [hplaced.queued, hat]
    constructor
    · rintro ⟨c, heq, hc⟩
      cases heq
      exact absurd hc hold
    · exact fun h => absurd h hnew
  · rfl

theorem Kept.acceptorStep (hkept : Kept limits server) {protocol : Protocol}
    (hfits : StepFits limits server (.acceptorStep protocol)) :
    Kept limits (server.acceptorStep limits protocol) := by
  unfold HttpServer.acceptorStep
  cases hacceptor : server.acceptors protocol with
  | none => exact hkept
  | some id =>
    obtain ⟨place, hat, hhand⟩ := (hkept.placed.hand protocol id).mp hacceptor
    dsimp only
    rw [hat]
    dsimp only
    -- Places that are not dispatched count for nothing.
    have hquiet : ∀ new : Place, new.handler = none → new.unfinished = false ∧
        (∀ ip, new.holds ip = false) ∧ new.inSession = false ∧ new.clientIp ≠ some [] := by
      intro new hnew
      cases new <;> simp_all [Place.handler, Place.unfinished, Place.holds, Place.inSession,
        Place.clientIp]
    have hbooks : ∀ {new : Place} {server' : HttpServer}, new.handler = none →
        place.handler = none → server'.connections =
          server.connections.assign id ⟨protocol, new⟩ →
        server'.activeConnections = server.activeConnections → server'.counts = server.counts →
        Books limits server' := by
      intro new server' hnew hold hconnections hactive hcounts
      obtain ⟨hunfinished, hholds, hsession, haddress⟩ := hquiet new hnew
      obtain ⟨hunfinished', hholds', -, -⟩ := hquiet place hold
      refine hkept.books.moved hat hconnections ?_ (hactive ▸ hkept.books.room) (fun ip => ?_)
        (hcounts ▸ hkept.books.perIp) (fun h hh => ?_) hsession haddress
      · rw [hactive, hunfinished, hunfinished']
      · rw [hcounts, hholds, hholds']
      · rw [hnew] at hh
        cases hh
    have hsame : ∀ new : Place, new ≠ .queued → ∀ other, other ∈ server.connectionQueue ↔
        if other = id then new = .queued else other ∈ server.connectionQueue := by
      refine fun new hnew => queue_same hkept.placed hat ?_ hnew
      rintro rfl
      cases hhand
    cases place with
    | arrived =>
      dsimp only
      split
      · exact ⟨hbooks rfl rfl rfl rfl rfl, hkept.placed.moved hat rfl rfl
          (acceptors_same hkept.placed hat rfl rfl)
          (hsame _ (by simp)) hkept.placed.nodup⟩
      · exact ⟨hbooks rfl rfl rfl rfl rfl, hkept.placed.moved hat rfl rfl
          (acceptors_same hkept.placed hat rfl rfl)
          (hsame _ (by simp)) hkept.placed.nodup⟩
    | admitted =>
      have hroom := hfits id _ hacceptor hat rfl
      refine ⟨hkept.books.moved hat rfl ?_ ?_ (fun _ => rfl) hkept.books.perIp ?_ rfl
        (by simp [Place.clientIp]), hkept.placed.moved hat rfl rfl
          (acceptors_done hkept.placed hat rfl rfl)
          (hsame _ (by simp)) hkept.placed.nodup⟩
      · exact Int.add_zero _
      · change server.activeConnections + 1 ≤ _
        omega
      · exact fun h hh => (Option.some.inj hh).symm
    | refused =>
      dsimp only
      split
      · exact hkept
      · split
        · have hnot : id ∉ server.connectionQueue := by
            rw [hkept.placed.queued, hat]
            rintro ⟨c, heq, hc⟩
            cases heq
            cases hc
          refine ⟨hbooks rfl rfl rfl rfl rfl, hkept.placed.moved hat rfl rfl
            (acceptors_done hkept.placed hat rfl rfl) (fun other => ?_) ?_⟩
          · dsimp only
            rw [List.mem_append, List.mem_singleton]
            split
            · next h => simp [h]
            · next h => simp [h]
          · exact List.nodup_append.mpr ⟨hkept.placed.nodup, List.nodup_singleton _, by
              intro a ha b hb heq
              obtain rfl := List.mem_singleton.mp hb
              exact hnot (heq ▸ ha)⟩
        · exact ⟨hbooks rfl rfl rfl rfl rfl, hkept.placed.moved hat rfl rfl
            (acceptors_done hkept.placed hat rfl rfl)
            (hsame _ (by simp)) hkept.placed.nodup⟩
    | _ => cases hhand

theorem Kept.drainStep (hkept : Kept limits server)
    (hfits : StepFits limits server .drainStep) : Kept limits (server.drainStep limits) := by
  have hdrain : ∀ drain, Kept limits { server with drain := drain } := fun _ =>
    ⟨⟨hkept.books.active, hkept.books.room, hkept.books.slots, hkept.books.perIp,
      hkept.books.protocol, hkept.books.noSession, hkept.books.address⟩,
      ⟨hkept.placed.fresh, hkept.placed.hand, hkept.placed.queued, hkept.placed.nodup⟩⟩
  unfold HttpServer.drainStep
  cases hat : server.drain with
  | idle => exact hdrain _
  | looking =>
    dsimp only
    split
    · exact hdrain _
    · exact hdrain _
  | found =>
    obtain ⟨hroom, hplain⟩ := hfits hat
    cases hqueue : server.connectionQueue with
    | nil =>
      have hlooking := hdrain .looking
      rw [hqueue] at hlooking
      exact hlooking
    | cons id queue =>
      obtain ⟨connection, hfind, hplace⟩ :=
        (hkept.placed.queued id).mp (hqueue ▸ List.mem_cons_self)
      have hnodup := hkept.placed.nodup
      rw [hqueue, List.nodup_cons] at hnodup
      dsimp only
      rw [hfind]
      dsimp only
      refine ⟨hkept.books.moved hfind rfl ?_ ?_ (fun ip => ?_) hkept.books.perIp ?_ rfl
        (by simp [Place.clientIp]), hkept.placed.moved hfind rfl rfl ?_ ?_ hnodup.2⟩
      · rw [hplace]
        exact Int.add_zero _
      · change server.activeConnections + 1 ≤ _
        omega
      · rw [hplace]
        rfl
      · intro h hh
        rw [hplain id queue connection hqueue hfind]
        exact (Option.some.inj hh).symm
      · intro protocol other
        split
        · next h =>
          subst h
          constructor
          · intro h
            obtain ⟨place, heq, hhand⟩ := (hkept.placed.hand protocol _).mp h
            rw [hfind] at heq
            cases heq
            dsimp only at hplace
            subst hplace
            cases hhand
          · rintro ⟨-, h⟩
            cases h
        · rfl
      · intro other
        dsimp only
        split
        · next h =>
          subst h
          exact ⟨fun h => absurd h hnodup.1, fun h => (by cases h)⟩
        · next h =>
          rw [hqueue, List.mem_cons]
          simp [h]

theorem Kept.step (hkept : Kept limits server) {call : ServerCall}
    (hfits : StepFits limits server call) : Kept limits (server.step limits call) := by
  cases call with
  | accept protocol => exact hkept.accept protocol
  | acceptorStep protocol => exact hkept.acceptorStep hfits
  | drainStep => exact hkept.drainStep hfits
  | setUp id clientIp => exact hkept.setUp hfits
  | acquireConnectionSlot id => exact hkept.acquireConnectionSlot
  | leave id => exact hkept.leave
  | upgradeToWebSocket id => exact hkept.upgradeToWebSocket hfits
  | guardStep id => exact hkept.guardStep
  | closeSession id => exact hkept.closeSession

/-! ## Runs -/

theorem kept_new (limits : HttpLimits) : Kept limits new := by
  have hnone : ∀ id, new.connections.find id = none := fun _ => rfl
  constructor
  · refine ⟨rfl, Int.natCast_nonneg _, fun _ => rfl, fun _ => Int.natCast_nonneg _, ?_, ?_, ?_⟩
    · intro id connection handler h
      cases h
    · intro id connection h
      cases h
    · intro id connection h
      cases h
  · refine ⟨?_, ?_, ?_, List.nodup_nil⟩
    · intro id connection h
      cases h
    · intro protocol id
      constructor
      · intro h
        cases h
      · rintro ⟨place, h, -⟩
        cases h
    · intro id
      constructor
      · intro h
        cases h
      · rintro ⟨connection, h, -⟩
        cases h

/-- The round that found room dispatches the first of the queue. -/
theorem drainStep_found {queue : List Nat} (hqueue : server.connectionQueue = id :: queue)
    (hfind : server.connections.find id = some connection) :
    (({ server with drain := .found } : HttpServer).drainStep limits).connections.find id =
      some { connection with place := .posted .plain } := by
  unfold HttpServer.drainStep
  dsimp only
  rw [hqueue]
  dsimp only
  rw [hfind]
  dsimp only [move]
  rw [UMap.find_assign, if_pos rfl]

theorem drainStep_looking {queue : List Nat} (hqueue : server.connectionQueue = id :: queue)
    (hroom : server.activeConnections < limits.maxConnections) :
    ({ server with drain := .looking } : HttpServer).drainStep limits =
      { server with drain := .found } := by
  unfold HttpServer.drainStep
  dsimp only
  rw [if_pos ⟨by rw [hqueue]; exact List.cons_ne_nil id queue, hroom⟩]

theorem Kept.drained (hkept : Kept limits server) : Drained limits server := by
  intro id queue hqueue hroom
  obtain ⟨connection, hfind, -⟩ := (hkept.placed.queued id).mp (hqueue ▸ List.mem_cons_self)
  have hfound : (({ server with drain := .found } : HttpServer).drainStep limits
      ).connections.find id = some ⟨connection.protocol, .posted .plain⟩ :=
    drainStep_found hqueue hfind
  have hlooking := drainStep_looking hqueue hroom
  cases hdrain : server.drain with
  | idle =>
    have hidle : server.drainStep limits = { server with drain := .looking } := by
      unfold HttpServer.drainStep
      rw [hdrain]
    refine ⟨3, Nat.le_refl 3, ⟨connection.protocol, .posted .plain⟩, ?_, rfl⟩
    change (((server.drainStep limits).drainStep limits).drainStep limits).connections.find id = _
    rw [hidle, hlooking]
    exact hfound
  | looking =>
    refine ⟨2, by decide, ⟨connection.protocol, .posted .plain⟩, ?_, rfl⟩
    change ((server.drainStep limits).drainStep limits).connections.find id = _
    have hself : server = { server with drain := .looking } := by rw [← hdrain]
    rw [hself, hlooking]
    exact hfound
  | found =>
    refine ⟨1, by decide, ⟨connection.protocol, .posted .plain⟩, ?_, rfl⟩
    change (server.drainStep limits).connections.find id = _
    have hself : server = { server with drain := .found } := by rw [← hdrain]
    rw [hself]
    exact hfound

theorem Placed.onePlace (hplaced : Placed server)
    (hat : server.connections.find id = some connection)
    (hdone : server.acceptors connection.protocol ≠ some id) :
    (connection.place.handler.isSome = true ∧ id ∉ server.connectionQueue) ∨
    (connection.place = .queued ∧ server.connectionQueue.count id = 1) ∨
    (connection.place = .rejected ∧ id ∉ server.connectionQueue) := by
  have hhand : connection.place.inHand ≠ true := fun h =>
    hdone ((hplaced.hand connection.protocol id).mpr ⟨connection.place, hat, h⟩)
  have hqueued : id ∈ server.connectionQueue ↔ connection.place = .queued := by
    rw [hplaced.queued, hat]
    exact ⟨fun ⟨c, heq, hc⟩ => (by cases heq; exact hc), fun h => ⟨connection, rfl, h⟩⟩
  cases hplace : connection.place with
  | arrived => exact absurd (by rw [hplace]; rfl) hhand
  | admitted => exact absurd (by rw [hplace]; rfl) hhand
  | refused => exact absurd (by rw [hplace]; rfl) hhand
  | queued => exact .inr (.inl ⟨rfl, List.count_eq_one_of_mem hplaced.nodup (hqueued.mpr hplace)⟩)
  | rejected => exact .inr (.inr ⟨rfl, fun h => absurd (hqueued.mp h) (by rw [hplace]; simp)⟩)
  | _ => exact .inl ⟨rfl, fun h => absurd (hqueued.mp h) (by rw [hplace]; simp)⟩

theorem Kept.accounted (hkept : Kept limits server) : Accounted limits server where
  active := hkept.books.active
  room := hkept.books.room
  slots := hkept.books.slots
  perIp := hkept.books.perIp
  onePlace _ _ hat hdone := hkept.placed.onePlace hat hdone
  protocol := hkept.books.protocol
  drained := hkept.drained

end Moved

/-- In every run whose steps fit the connections are accounted for. -/
theorem along_accounted (limits : HttpLimits) (calls : List ServerCall)
    (hfits : (machine limits).Along (fun _ => StepFits limits) [] new calls) :
    Accounted limits ((machine limits).run new calls).1 :=
  (Machine.along_invariant (I := fun _ => Kept limits) (fun _ _ _ hkept hfits => hkept.step hfits)
    (kept_new limits) hfits).accounted

theorem fits_acceptorStep {limits : HttpLimits} {server : HttpServer} {protocol : Protocol}
    {id : Nat} {connection : Connection} (hhand : server.acceptors protocol = some id)
    (hat : server.connections.find id = some connection)
    (hroom : connection.place = .admitted → server.activeConnections < limits.maxConnections) :
    StepFits limits server (.acceptorStep protocol) := by
  intro id' connection' hhand' hat'
  obtain rfl := Option.some.inj (hhand.symm.trans hhand')
  obtain rfl := Option.some.inj (hat.symm.trans hat')
  exact hroom

/-- The second connection waits in the queue until the first has given its slot back. -/
def twoInTurn : List ServerCall :=
  [.accept .plain, .acceptorStep .plain, .acceptorStep .plain, .setUp 0 (some ['a']),
    .acquireConnectionSlot 0, .accept .plain, .acceptorStep .plain, .acceptorStep .plain, .leave 0,
    .guardStep 0, .guardStep 0, .drainStep, .drainStep, .drainStep, .setUp 1 (some ['a']),
    .acquireConnectionSlot 1]

theorem twoInTurn_accounted : Accounted ⟨1, 1⟩ ((machine ⟨1, 1⟩).run new twoInTurn).1 := by
  refine along_accounted ⟨1, 1⟩ twoInTurn ⟨trivial, fits_acceptorStep rfl rfl nofun,
    fits_acceptorStep rfl rfl fun _ => by decide, nofun, trivial, trivial,
    fits_acceptorStep rfl rfl nofun, fits_acceptorStep rfl rfl nofun, trivial, trivial, trivial,
    nofun, nofun, fun _ => ⟨by decide +kernel, ?_⟩, nofun, trivial, trivial⟩
  rintro id queue connection hqueue hat
  obtain ⟨rfl, -⟩ := List.cons.inj hqueue
  obtain rfl := Option.some.inj hat
  rfl

/-- A session is open, and no connection is counted. -/
theorem session_not_accounted :
    ¬ ∀ (limits : HttpLimits) (calls : List ServerCall),
      Accounted limits ((machine limits).run new calls).1 := by
  intro h
  have hactive := (h ⟨1, 1⟩ [.accept .plain, .acceptorStep .plain, .acceptorStep .plain,
    .setUp 0 (some ['a']), .acquireConnectionSlot 0, .upgradeToWebSocket 0, .guardStep 0,
    .guardStep 0]).active
  revert hactive
  decide +kernel

end HttpServer

end Alpine
