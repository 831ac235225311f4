import Alpine.RestBridge.AuthHandler

/-!
# Login tokens

The bridge issues access tokens in one component and checks the tokens of requests in another. The
first does not tell the second what it issued, so a login token is answered like any text:
`StepFits` is the exact condition for the tokens to be honoured (`along_honours_iff`). What is
accepted is always the current key, a replaced key in its grace period, or what the check of web
tokens accepts.
-/

namespace Alpine

open Lib

structure RestBridge where
  auth : ApiKeyAuth
  handler : AuthHandler
  /-- Calls of `validate` that wait for the lock: the request, its token and when it came. -/
  presented : List (HttpRequest × ApiKey × Int)

inductive BridgeCall where
  /-- The calls of `validate` are the bridge's own. -/
  | key (call : AuthCall)
  | enrollDevice (request : HttpRequest) (idBytes : Option (Vector UInt8 16))
  | getChallenge (idBytes : Option (Vector UInt8 16)) (nonceBytes : Option (Vector UInt8 32))
  | verifySignature (request : HttpRequest)
  | finishVerify (i : Nat) (tokenBytes : Option (Vector UInt8 32))

inductive BridgeEvent where
  | key (event : AuthEvent)
  | replied (reply : AuthReply)
  /-- A token was returned at a time, with the seconds that it is good for. -/
  | issued (token : ApiKey) (expiresIn : Nat) (issuedAt : Int)
  /-- A request that came at a time was answered. -/
  | answered (request : HttpRequest) (presentedAt : Int) (answer : Bool)

namespace RestBridge

variable (library : JsonLibrary) (tls : Option TlsBuild)

/-- The check of web tokens, where it is built and configured. -/
def jwtAccepts (now : Int) (token : ApiKey) : Bool :=
  match tls with
  | none => false
  | some tls =>
    match tls.validateJwt with
    | none => false
    | some validateJwt => validateJwt now token

def validate (bridge : RestBridge) (request : HttpRequest) : RestBridge × List BridgeEvent :=
  match bridge.auth.validateFirst request with
  | some answer => (bridge, [.answered request bridge.auth.clock answer])
  | none =>
    ({ bridge with
        presented := bridge.presented ++
          [(request, (ApiKeyAuth.bearerToken request).getD [], bridge.auth.clock)] }, [])

/-- A waiting validation gets the lock; the web tokens are tried last. -/
def searchNext (bridge : RestBridge) (i : Nat) : RestBridge × List BridgeEvent :=
  match bridge.auth.locked, bridge.presented[i]? with
  | none, some (request, token, presentedAt) =>
    ({ bridge with presented := bridge.presented.eraseIdx i },
      [.answered request presentedAt
        (ApiKeyAuth.searchKeys bridge.auth.keys bridge.auth.clock token ||
          jwtAccepts tls bridge.auth.clock token)])
  | _, _ => (bridge, [])

def keyStep (bridge : RestBridge) (call : AuthCall) : RestBridge × List BridgeEvent :=
  ({ bridge with auth := (ApiKeyAuth.step bridge.auth call).1 },
    (ApiKeyAuth.step bridge.auth call).2.map .key)

def finishNext (bridge : RestBridge) (i : Nat) (tokenBytes : Option (Vector UInt8 32)) :
    RestBridge × List BridgeEvent :=
  match bridge.handler.verifications[i]? with
  | none => (bridge, [])
  | some v =>
    ({ bridge with
        handler :=
          { bridge.handler with verifications := bridge.handler.verifications.eraseIdx i } },
      match bridge.handler.finishVerify tls v tokenBytes with
      | .session token expiresIn => [.issued token expiresIn bridge.auth.clock]
      | reply => [.replied reply])

def step (bridge : RestBridge) : BridgeCall → RestBridge × List BridgeEvent
  | .key (.validate request) => bridge.validate request
  | .key (.searchKeys i) => bridge.searchNext tls i
  | .key call => bridge.keyStep call
  | .enrollDevice request idBytes =>
    let (handler, reply) := bridge.handler.enrollDevice library request idBytes
    ({ bridge with handler }, [.replied reply])
  | .getChallenge idBytes nonceBytes =>
    let (handler, reply) := bridge.handler.getChallenge bridge.auth.clock idBytes nonceBytes
    ({ bridge with handler }, [.replied reply])
  | .verifySignature request =>
    let (handler, reply) := bridge.handler.verifySignature library bridge.auth.clock request
    ({ bridge with handler }, reply.toList.map .replied)
  | .finishVerify i tokenBytes => bridge.finishNext tls i tokenBytes

def machine : Machine RestBridge BridgeCall BridgeEvent := ⟨step library tls⟩

/-- The bridge as it starts; without a key nothing was generated. -/
def start (key : Option { key : ApiKey // key ≠ [] }) : RestBridge :=
  match key with
  | none => ⟨⟨[], [], 0, none, [], []⟩, .new, []⟩
  | some key => ⟨ApiKeyAuth.start key, .new, []⟩

def startEvents (key : Option { key : ApiKey // key ≠ [] }) : List BridgeEvent :=
  match key with
  | none => []
  | some key => [.key (.assigned key)]

/-! ## What must hold -/

def keyEvent : BridgeEvent → Option AuthEvent
  | .key event => some event
  | _ => none

def keyEvents (history : List BridgeEvent) : List AuthEvent := history.filterMap keyEvent

/-- The token was issued, and is good at the time. -/
def Live (history : List BridgeEvent) (token : ApiKey) (now : Int) : Prop :=
  ∃ expiresIn issuedAt, BridgeEvent.issued token expiresIn issuedAt ∈ history ∧
    issuedAt ≤ now ∧ now ≤ issuedAt + expiresIn * 1000000000

/-- What a request may be accepted for. -/
def MayPass (history : List BridgeEvent) (now : Int) (request : HttpRequest) : Prop :=
  ApiKeyAuth.isExempt request = true ∨ ∃ token, ApiKeyAuth.bearerToken request = some token ∧
    (ApiKeyAuth.Accepted (keyEvents history) now token ∨ Live history token now ∨
      jwtAccepts tls now token = true)

/-- A request that comes with a live login token is accepted, and what is accepted may pass. -/
structure StepHonours (history : List BridgeEvent) (bridge : RestBridge) (call : BridgeCall) :
    Prop where
  honoured : ∀ request presentedAt answer,
    .answered request presentedAt answer ∈ (step library tls bridge call).2 →
    ∀ token, ApiKeyAuth.bearerToken request = some token → Live history token presentedAt →
      answer = true
  only : ∀ request presentedAt,
    .answered request presentedAt true ∈ (step library tls bridge call).2 →
    MayPass tls history bridge.auth.clock request

/-- The exact condition. A live login token passes only if it is also a key of the list that has not
expired, or passes as a web token, and while there is a current key or with an exempt request. -/
def StepFits (history : List BridgeEvent) (bridge : RestBridge) : BridgeCall → Prop
  | .key (.validate request) => ApiKeyAuth.isExempt request = false →
      ∀ token, ApiKeyAuth.bearerToken request = some token →
        Live history token bridge.auth.clock → bridge.auth.apiKey ≠ []
  | .key (.searchKeys i) => bridge.auth.locked = none →
      ∀ request token presentedAt, bridge.presented[i]? = some (request, token, presentedAt) →
        Live history token presentedAt →
          (∃ entry ∈ bridge.auth.keys, entry.key = token ∧ bridge.auth.clock < entry.expiresAt) ∨
            jwtAccepts tls bridge.auth.clock token = true
  | _ => True

end RestBridge

/-! ## The keys -/

namespace ApiKeyAuth

/-- The key that is current once the rotation under way is done. -/
def newest (auth : ApiKeyAuth) : ApiKey :=
  match auth.locked with
  | none => auth.apiKey
  | some (_, newKey) => newKey

/-- What the keys keep in every run: each was current, or still is. -/
structure Held (history : List AuthEvent) (auth : ApiKeyAuth) : Prop where
  clock : 0 ≤ auth.clock
  current : auth.apiKey ≠ [] → currentKey history = some auth.apiKey
  assigned : ∀ key, auth.locked = some (.assigned, key) → auth.apiKey = key
  fresh : ∀ entry ∈ auth.keys, entry.deprecated = false →
    entry.key ≠ [] ∧ entry.key = newest auth
  replaced : ∀ entry ∈ auth.keys, entry.deprecated = true →
    ∃ deadline, .replaced entry.key deadline ∈ history ∧ entry.expiresAt ≤ deadline
  waiting : ∀ rotation ∈ auth.rotations,
    0 ≤ rotation.now ∧ 0 ≤ rotation.gracePeriod ∧ rotation.newKey ≠ []

variable {history : List AuthEvent} {auth : ApiKeyAuth}

/-- What the loop over the list finds may pass. -/
theorem Held.accepted (h : Held history auth) (hlock : auth.locked = none) {token : ApiKey}
    (hfound : searchKeys auth.keys auth.clock token = true) :
    Accepted history auth.clock token := by
  rw [searchKeys, List.any_eq_true] at hfound
  obtain ⟨entry, hmem, hentry⟩ := hfound
  rw [Bool.and_eq_true, decide_eq_true_eq, decide_eq_true_eq] at hentry
  obtain ⟨hlt, rfl⟩ := hentry
  cases hdep : entry.deprecated with
  | true =>
    obtain ⟨deadline, hreplaced, hle⟩ := h.replaced entry hmem hdep
    exact .inr ⟨deadline, hreplaced, lt_of_lt_of_le hlt hle⟩
  | false =>
    obtain ⟨hne, hnewest⟩ := h.fresh entry hmem hdep
    unfold newest at hnewest
    rw [hlock] at hnewest
    dsimp only at hnewest
    rw [hnewest] at hne ⊢
    exact .inl (h.current hne)

/-- A deadline that the clock cannot reach makes the key expire before it. -/
theorem expiry_le {rotation : Rotation} (hnow : 0 ≤ rotation.now)
    (hgrace : 0 ≤ rotation.gracePeriod) : expiry rotation ≤ rotation.deadline := by
  by_cases hdeadline : rotation.deadline ≤ timeMax
  · rw [expiry_eq hnow hgrace hdeadline]
  · exact (wrap64_le _).trans (by omega)

theorem currentKey_replaced (history : List AuthEvent) (entries : List KeyEntry) (deadline : Int) :
    currentKey (history ++ entries.map fun entry => .replaced entry.key deadline) =
      currentKey history := by
  induction entries generalizing history with
  | nil => rw [List.map_nil, List.append_nil]
  | cons entry entries ih =>
    rw [List.map_cons, List.append_cons, ih, currentKey_append]

theorem Held.append (h : Held history auth) {events : List AuthEvent}
    (hevents : currentKey (history ++ events) = currentKey history) :
    Held (history ++ events) auth := by
  refine ⟨h.clock, ?_, h.assigned, h.fresh, fun entry hmem hdep => ?_, h.waiting⟩
  · rw [hevents]
    exact h.current
  · obtain ⟨deadline, hreplaced, hle⟩ := h.replaced entry hmem hdep
    exact ⟨deadline, List.mem_append_left _ hreplaced, hle⟩

theorem Held.drawKey (h : Held history auth) (gracePeriodSec : UInt64)
    (randomBytes : Option (Vector UInt8 32)) :
    Held (history ++ (auth.drawKey gracePeriodSec randomBytes).2)
      (auth.drawKey gracePeriodSec randomBytes).1 := by
  cases randomBytes with
  | none => exact h.append (currentKey_append history .failed)
  | some randomBytes =>
    unfold ApiKeyAuth.drawKey
    dsimp only
    rw [List.append_nil]
    refine ⟨h.clock, h.current, h.assigned, h.fresh, h.replaced, fun rotation hmem => ?_⟩
    rcases List.mem_append.mp hmem with hmem | hmem
    · exact h.waiting rotation hmem
    · cases List.mem_singleton.mp hmem
      exact ⟨h.clock, Int.natCast_nonneg _, hexKey_ne_nil randomBytes⟩

theorem Held.enterNext (h : Held history auth) (i : Nat) :
    Held (history ++ (auth.enterNext i).2) (auth.enterNext i).1 := by
  unfold ApiKeyAuth.enterNext
  split
  · next rotation hlock hget =>
    obtain ⟨hnow, hgrace, hnew⟩ := h.waiting rotation (List.mem_of_getElem? hget)
    have hold := (h.append (currentKey_replaced history
      (auth.keys.filter fun entry => !entry.deprecated) rotation.deadline))
    refine ⟨h.clock, hold.current, fun key heq => (by cases heq), fun entry hmem hdep => ?_,
      fun entry hmem hdep => ?_,
      fun r hmem => h.waiting r (List.mem_of_mem_eraseIdx hmem)⟩
    · -- only the new key is not deprecated
      rcases List.mem_cons.mp hmem with rfl | hmem
      · exact ⟨hnew, rfl⟩
      · obtain ⟨entry', -, rfl⟩ := List.mem_map.mp hmem
        unfold deprecateEntry at hdep
        split at hdep
        · next htrue =>
          rw [htrue] at hdep
          cases hdep
        · cases hdep
    · rcases List.mem_cons.mp hmem with rfl | hmem
      · cases hdep
      · obtain ⟨entry', hmem', rfl⟩ := List.mem_map.mp hmem
        unfold deprecateEntry
        split
        · next htrue => exact hold.replaced entry' hmem' htrue
        · next hfalse =>
          refine ⟨rotation.deadline, List.mem_append_right _ ?_, expiry_le hnow hgrace⟩
          refine List.mem_map.mpr ⟨entry', List.mem_filter.mpr ⟨hmem', ?_⟩, rfl⟩
          rw [Bool.not_eq_true] at hfalse
          rw [hfalse]
          rfl
  · rw [List.append_nil]
    exact h

theorem Held.eraseKey (h : Held history auth) :
    Held (history ++ auth.eraseKey.2) auth.eraseKey.1 := by
  unfold ApiKeyAuth.eraseKey
  split
  · next key hlock =>
    rw [List.append_nil]
    refine ⟨h.clock, fun hne => absurd rfl hne, fun _ heq => (by cases heq),
      fun entry hmem hdep => ?_, h.replaced, h.waiting⟩
    have hfresh := h.fresh entry hmem hdep
    unfold newest at hfresh ⊢
    rw [hlock] at hfresh
    exact hfresh
  · rw [List.append_nil]
    exact h

theorem Held.assignKey (h : Held history auth) :
    Held (history ++ auth.assignKey.2) auth.assignKey.1 := by
  unfold ApiKeyAuth.assignKey
  split
  · next key hlock =>
    refine ⟨h.clock, fun _ => currentKey_append history (.assigned key), fun key' heq => ?_,
      fun entry hmem hdep => ?_, fun entry hmem hdep => ?_, h.waiting⟩
    · cases heq
      rfl
    · have hfresh := h.fresh entry hmem hdep
      unfold newest at hfresh ⊢
      rw [hlock] at hfresh
      exact hfresh
    · obtain ⟨deadline, hreplaced, hle⟩ := h.replaced entry hmem hdep
      exact ⟨deadline, List.mem_append_left _ hreplaced, hle⟩
  · rw [List.append_nil]
    exact h

theorem Held.purgeExpiredKeys (h : Held history auth) :
    Held (history ++ auth.purgeExpiredKeys.2) auth.purgeExpiredKeys.1 := by
  unfold ApiKeyAuth.purgeExpiredKeys
  split
  · next key hlock =>
    have happ := h.append (currentKey_append history .rotated)
    refine ⟨h.clock, happ.current, fun _ heq => (by cases heq), fun entry hmem hdep => ?_,
      fun entry hmem hdep => happ.replaced entry (List.mem_of_mem_filter hmem) hdep, h.waiting⟩
    have hfresh := h.fresh entry (List.mem_of_mem_filter hmem) hdep
    unfold newest at hfresh ⊢
    rw [hlock] at hfresh
    dsimp only at hfresh ⊢
    rw [h.assigned key hlock]
    exact hfresh
  · rw [List.append_nil]
    exact h

theorem Held.tick (h : Held history auth) (duration : Nat) :
    Held (history ++ []) (auth.tick duration) := by
  rw [List.append_nil]
  unfold ApiKeyAuth.tick
  split
  · have hclock := h.clock
    exact ⟨by dsimp only; omega, h.current, h.assigned, h.fresh, h.replaced, h.waiting⟩
  · exact h

end ApiKeyAuth

/-! ## Runs of the bridge -/

namespace RestBridge

open ApiKeyAuth (Held isExempt bearerToken validateFirst)

variable {library : JsonLibrary} {tls : Option TlsBuild} {history : List BridgeEvent}
  {bridge : RestBridge}

structure Kept (history : List BridgeEvent) (bridge : RestBridge) : Prop where
  held : Held (keyEvents history) bridge.auth
  presented : ∀ request token presentedAt, (request, token, presentedAt) ∈ bridge.presented →
    bearerToken request = some token

theorem kept_start (key : Option { key : ApiKey // key ≠ [] }) :
    Kept (startEvents key) (start key) := by
  cases key with
  | none => constructor <;> first | constructor <;> simp [start] | simp [start]
  | some key =>
    refine ⟨⟨le_refl 0, fun _ => rfl, fun _ heq => (by cases heq), fun entry hmem _ => ?_,
      fun entry hmem hdep => ?_, fun _ hmem => (by cases hmem)⟩, fun _ _ _ hmem => (by cases hmem)⟩
    · cases List.mem_singleton.mp hmem
      exact ⟨key.property, rfl⟩
    · cases List.mem_singleton.mp hmem
      cases hdep

theorem keyEvents_append (history events : List BridgeEvent) :
    keyEvents (history ++ events) = keyEvents history ++ keyEvents events :=
  List.filterMap_append

/-- Events of other components say nothing about the keys. -/
theorem Kept.other (h : Kept history bridge) {events : List BridgeEvent} {bridge' : RestBridge}
    (hauth : bridge'.auth = bridge.auth) (hpresented : ∀ p ∈ bridge'.presented, p ∈ bridge.presented)
    (hevents : keyEvents events = []) : Kept (history ++ events) bridge' := by
  refine ⟨?_, fun request token presentedAt hmem => ?_⟩
  · rw [keyEvents_append, hevents, List.append_nil, hauth]
    exact h.held
  · exact h.presented request token presentedAt (hpresented _ hmem)

theorem Kept.keyStep (h : Kept history bridge) {call : AuthCall}
    (hheld : Held (keyEvents history ++ (ApiKeyAuth.step bridge.auth call).2)
      (ApiKeyAuth.step bridge.auth call).1) :
    Kept (history ++ (bridge.keyStep call).2) (bridge.keyStep call).1 := by
  have hevents : keyEvents (bridge.keyStep call).2 = (ApiKeyAuth.step bridge.auth call).2 := by
    unfold keyEvents RestBridge.keyStep
    dsimp only
    rw [List.filterMap_map]
    exact List.filterMap_some
  refine ⟨?_, h.presented⟩
  rw [keyEvents_append, hevents]
  exact hheld

/-- The token of a request that goes on to the list. -/
theorem bearerToken_of_validateFirst {auth : ApiKeyAuth} {request : HttpRequest}
    (h : validateFirst auth request = none) :
    ∃ token, bearerToken request = some token := by
  unfold validateFirst at h
  split at h
  · cases h
  · split at h
    · cases h
    · cases htoken : bearerToken request with
      | none =>
        rw [htoken] at h
        cases h
      | some token => exact ⟨token, rfl⟩

theorem Kept.step (h : Kept history bridge) (call : BridgeCall) :
    Kept (history ++ (step library tls bridge call).2) (step library tls bridge call).1 := by
  cases call with
  | key call =>
    cases call with
    | rotateKey gracePeriodSec randomBytes =>
      exact h.keyStep (h.held.drawKey gracePeriodSec randomBytes)
    | enterKey i => exact h.keyStep (h.held.enterNext i)
    | eraseKey => exact h.keyStep h.held.eraseKey
    | assignKey => exact h.keyStep h.held.assignKey
    | purgeExpiredKeys => exact h.keyStep h.held.purgeExpiredKeys
    | tick duration => exact h.keyStep (h.held.tick duration)
    | validate request =>
      unfold RestBridge.step validate
      dsimp only
      cases hfirst : validateFirst bridge.auth request with
      | some answer => exact h.other rfl (fun _ hmem => hmem) rfl
      | none =>
        obtain ⟨token, htoken⟩ := bearerToken_of_validateFirst hfirst
        dsimp only
        rw [htoken, List.append_nil]
        refine ⟨h.held, fun request' token' presentedAt hmem => ?_⟩
        rcases List.mem_append.mp hmem with hmem | hmem
        · exact h.presented request' token' presentedAt hmem
        · cases List.mem_singleton.mp hmem
          exact htoken
    | searchKeys i =>
      unfold RestBridge.step searchNext
      dsimp only
      split
      · exact h.other rfl (fun _ hmem => List.mem_of_mem_eraseIdx hmem) rfl
      · exact h.other rfl (fun _ hmem => hmem) rfl
  | enrollDevice request idBytes => exact h.other rfl (fun _ hmem => hmem) rfl
  | getChallenge idBytes nonceBytes => exact h.other rfl (fun _ hmem => hmem) rfl
  | verifySignature request =>
    refine h.other rfl (fun _ hmem => hmem) ?_
    unfold RestBridge.step
    dsimp only
    cases (bridge.handler.verifySignature library bridge.auth.clock request).2 <;> rfl
  | finishVerify i tokenBytes =>
    unfold RestBridge.step finishNext
    dsimp only
    split
    · exact h.other rfl (fun _ hmem => hmem) rfl
    · refine h.other rfl (fun _ hmem => hmem) ?_
      split <;> rfl

/-! ## The answers -/

/-- Only the calls of `validate` answer a request. -/
theorem answered_cases {call : BridgeCall} {request : HttpRequest} {presentedAt : Int}
    {answer : Bool}
    (hevent : .answered request presentedAt answer ∈ (step library tls bridge call).2) :
    (call = .key (.validate request) ∧ presentedAt = bridge.auth.clock ∧
      validateFirst bridge.auth request = some answer) ∨
    ∃ i token, call = .key (.searchKeys i) ∧ bridge.auth.locked = none ∧
      bridge.presented[i]? = some (request, token, presentedAt) ∧
      answer = (ApiKeyAuth.searchKeys bridge.auth.keys bridge.auth.clock token ||
        jwtAccepts tls bridge.auth.clock token) := by
  have hkey : ∀ call', ¬ .answered request presentedAt answer ∈ (bridge.keyStep call').2 := by
    intro call' hmem
    obtain ⟨event, -, heq⟩ := List.mem_map.mp hmem
    cases heq
  cases call with
  | key call =>
    cases call with
    | validate request' =>
      unfold step validate at hevent
      dsimp only at hevent
      cases hfirst : validateFirst bridge.auth request' with
      | some answer' =>
        rw [hfirst] at hevent
        cases List.mem_singleton.mp hevent
        exact .inl ⟨rfl, rfl, hfirst⟩
      | none =>
        rw [hfirst] at hevent
        cases hevent
    | searchKeys i =>
      unfold step searchNext at hevent
      dsimp only at hevent
      split at hevent
      · next request' token presentedAt' hlock hget =>
        cases List.mem_singleton.mp hevent
        exact .inr ⟨i, token, rfl, hlock, hget, rfl⟩
      · cases hevent
    | _ => exact absurd hevent (hkey _)
  | enrollDevice request' idBytes => cases List.mem_singleton.mp hevent
  | getChallenge idBytes nonceBytes => cases List.mem_singleton.mp hevent
  | verifySignature request' =>
    unfold step at hevent
    dsimp only at hevent
    cases hreply : (bridge.handler.verifySignature library bridge.auth.clock request').2 with
    | none =>
      rw [hreply] at hevent
      cases hevent
    | some reply =>
      rw [hreply] at hevent
      cases List.mem_singleton.mp hevent
  | finishVerify i tokenBytes =>
    unfold step finishNext at hevent
    dsimp only at hevent
    split at hevent
    · cases hevent
    · dsimp only at hevent
      split at hevent <;> cases List.mem_singleton.mp hevent

/-- What the first part of `validate` answers. -/
theorem validateFirst_cases {auth : ApiKeyAuth} {request : HttpRequest} {answer : Bool}
    (h : validateFirst auth request = some answer) :
    (isExempt request = true ∧ answer = true) ∨
      (isExempt request = false ∧ ((auth.apiKey = [] ∧ answer = false) ∨
        (auth.apiKey ≠ [] ∧ ((bearerToken request = none ∧ answer = false) ∨
          (bearerToken request = some auth.apiKey ∧ answer = true))))) := by
  unfold validateFirst at h
  split at h
  · next hexempt => exact .inl ⟨hexempt, (Option.some.inj h).symm⟩
  · next hexempt =>
    refine .inr ⟨Bool.not_eq_true _ ▸ hexempt, ?_⟩
    split at h
    · next hempty => exact .inl ⟨hempty, (Option.some.inj h).symm⟩
    · next hne =>
      refine .inr ⟨hne, ?_⟩
      cases htoken : bearerToken request with
      | none =>
        rw [htoken] at h
        exact .inl ⟨rfl, (Option.some.inj h).symm⟩
      | some token =>
        rw [htoken] at h
        dsimp only at h
        split at h
        · next heq => exact .inr ⟨by rw [heq], (Option.some.inj h).symm⟩
        · cases h

/-- What is accepted may pass, in every run. -/
theorem Kept.only (hk : Kept history bridge) {call : BridgeCall} {request : HttpRequest}
    {presentedAt : Int}
    (hevent : .answered request presentedAt true ∈ (RestBridge.step library tls bridge call).2) :
    MayPass tls history bridge.auth.clock request := by
  rcases answered_cases hevent with ⟨-, -, hfirst⟩ | ⟨i, token, -, hlock, hget, hanswer⟩
  · rcases validateFirst_cases hfirst with ⟨hexempt, -⟩ |
      ⟨-, ⟨-, hfalse⟩ | ⟨hne, ⟨-, hfalse⟩ | ⟨htoken, -⟩⟩⟩
    · exact .inl hexempt
    · cases hfalse
    · cases hfalse
    · exact .inr ⟨_, htoken, .inl (.inl (hk.held.current hne))⟩
  · have htoken := hk.presented request token presentedAt (List.mem_of_getElem? hget)
    refine .inr ⟨token, htoken, ?_⟩
    rcases Bool.or_eq_true_iff.mp hanswer.symm with hfound | hjwt
    · exact .inl (hk.held.accepted hlock hfound)
    · exact .inr (.inr hjwt)

theorem searchKeys_iff {keys : List KeyEntry} {now : Int} {token : ApiKey} :
    ApiKeyAuth.searchKeys keys now token = true ↔
      ∃ entry ∈ keys, entry.key = token ∧ now < entry.expiresAt := by
  rw [ApiKeyAuth.searchKeys, List.any_eq_true]
  refine exists_congr fun entry => and_congr_right fun _ => ?_
  rw [Bool.and_eq_true, decide_eq_true_eq, decide_eq_true_eq, and_comm]

theorem Kept.honours_iff (hk : Kept history bridge) (call : BridgeCall) :
    StepHonours library tls history bridge call ↔ StepFits tls history bridge call := by
  constructor
  · intro hhonours
    cases call with
    | key call =>
      cases call with
      | validate request =>
        intro hexempt token htoken hlive hempty
        have hfirst : validateFirst bridge.auth request = some false := by
          unfold ApiKeyAuth.validateFirst
          rw [hexempt, if_neg Bool.false_ne_true, if_pos hempty]
        have hevent : .answered request bridge.auth.clock false ∈
            (RestBridge.step library tls bridge (.key (.validate request))).2 := by
          unfold RestBridge.step validate
          dsimp only
          rw [hfirst]
          exact List.mem_singleton_self _
        cases hhonours.honoured _ _ _ hevent token htoken hlive
      | searchKeys i =>
        intro hlock request token presentedAt hget hlive
        have hevent : .answered request presentedAt
            (ApiKeyAuth.searchKeys bridge.auth.keys bridge.auth.clock token ||
              jwtAccepts tls bridge.auth.clock token) ∈
            (RestBridge.step library tls bridge (.key (.searchKeys i))).2 := by
          unfold RestBridge.step searchNext
          dsimp only
          rw [hlock, hget]
          exact List.mem_singleton_self _
        have htoken := hk.presented request token presentedAt (List.mem_of_getElem? hget)
        rw [← searchKeys_iff]
        exact Bool.or_eq_true_iff.mp (hhonours.honoured _ _ _ hevent token htoken hlive)
      | _ => trivial
    | _ => trivial
  · intro hfits
    refine ⟨fun request presentedAt answer hevent token htoken hlive => ?_,
      fun request presentedAt hevent => hk.only hevent⟩
    rcases answered_cases hevent with ⟨rfl, rfl, hfirst⟩ | ⟨i, token', rfl, hlock, hget, rfl⟩
    · rcases validateFirst_cases hfirst with ⟨-, htrue⟩ |
        ⟨hexempt, ⟨hempty, -⟩ | ⟨-, ⟨hnone, -⟩ | ⟨-, htrue⟩⟩⟩
      · exact htrue
      · exact absurd hempty (hfits hexempt token htoken hlive)
      · rw [hnone] at htoken
        cases htoken
      · exact htrue
    · have htoken' := hk.presented request token' presentedAt (List.mem_of_getElem? hget)
      rw [htoken] at htoken'
      cases htoken'
      rw [Bool.or_eq_true_iff, searchKeys_iff]
      exact hfits hlock request token presentedAt hget hlive

/-- The login tokens of a run are honoured exactly if every step fits. -/
theorem along_honours_iff (library : JsonLibrary) (tls : Option TlsBuild)
    (key : Option { key : ApiKey // key ≠ [] }) (calls : List BridgeCall) :
    (machine library tls).Along (StepHonours library tls) (startEvents key) (start key) calls ↔
      (machine library tls).Along (StepFits tls) (startEvents key) (start key) calls :=
  Machine.along_congr (I := Kept) (fun _ _ call hk _ => hk.step call)
    (fun _ _ call hk => hk.honours_iff call) (kept_start key)

/-! ## A login -/

def enrollBody : List UInt8 := utf8 "\x7b\"publicKey\":\"k\"\x7d".toList

def challengeId : List Char := List.replicate 32 '0'

def verifyBody : List UInt8 :=
  utf8 ("\x7b\"challengeId\":\"".toList ++ challengeId ++
    "\",\"signature\":\"\",\"publicKey\":\"k\"\x7d".toList)

/-- The two documents of a login. -/
def loginLibrary : JsonLibrary where
  parse body :=
    if body = enrollBody then .document (.object [("publicKey".toList, .str ['k'])])
    else if body = verifyBody then
      .document (.object [("challengeId".toList, .str challengeId), ("signature".toList, .str []),
        ("publicKey".toList, .str ['k'])])
    else .parseError
  fits _ := true

/-- Every signature is good. -/
def loginBuild : TlsBuild := ⟨fun _ _ => .ready, fun _ _ _ => true, none⟩

def loginToken : ApiKey := AuthHandler.readUrandom (some (Vector.replicate 32 0))

def post (body : List UInt8) : HttpRequest := ⟨utf8 "POST".toList, [], body, ∅, ∅⟩

def loginRequest : HttpRequest :=
  ⟨utf8 "GET".toList, utf8 "/peers".toList, [],
    (∅ : UMap (List UInt8) (List UInt8)).assign (utf8 "Authorization".toList)
      (utf8 "Bearer ".toList ++ loginToken), ∅⟩

/-- A login, and a request with the token that it returned. -/
def login : List BridgeCall :=
  [.enrollDevice (post enrollBody) (some (Vector.replicate 16 0)),
    .getChallenge (some (Vector.replicate 16 0)) (some (Vector.replicate 32 0)),
    .verifySignature (post verifyBody), .finishVerify 0 (some (Vector.replicate 32 0)),
    .key (.validate loginRequest)]

def loginStart : Option { key : ApiKey // key ≠ [] } := some ⟨[1], List.cons_ne_nil 1 []⟩

/-- The token was issued at the start, for an hour. -/
def isLoginToken : BridgeEvent → Bool
  | .issued token expiresIn issuedAt => token = loginToken && expiresIn = 3600 && issuedAt = 0
  | _ => false

theorem login_not_honoured :
    ¬ (machine loginLibrary (some loginBuild)).Along
      (StepHonours loginLibrary (some loginBuild)) (startEvents loginStart) (start loginStart)
      (login ++ [.key (.searchKeys 0)]) := by
  intro h
  have hlast := (Machine.along_append.mp h).2.1
  have hkept : Kept _ _ := Machine.run_invariant
    (M := machine loginLibrary (some loginBuild)) (fun _ _ call hk => hk.step call) login
    (kept_start loginStart)
  have hissued : ((machine loginLibrary (some loginBuild)).run (start loginStart) login).2.any
      isLoginToken = true := by decide +kernel
  have hwaits : (((machine loginLibrary (some loginBuild)).run (start loginStart)
      login).1.presented[0]?).map Prod.snd = some (loginToken, 0) := by decide +kernel
  have hidle : ((machine loginLibrary (some loginBuild)).run (start loginStart)
      login).1.auth.locked.isNone = true := by decide +kernel
  have hunknown : ApiKeyAuth.searchKeys ((machine loginLibrary (some loginBuild)).run
      (start loginStart) login).1.auth.keys ((machine loginLibrary (some loginBuild)).run
      (start loginStart) login).1.auth.clock loginToken = false := by decide +kernel
  generalize (machine loginLibrary (some loginBuild)).run (start loginStart) login = r at *
  obtain ⟨event, hmem, hevent⟩ := List.any_eq_true.mp hissued
  unfold isLoginToken at hevent
  split at hevent
  · next token expiresIn issuedAt =>
    simp only [Bool.and_eq_true, decide_eq_true_eq] at hevent
    obtain ⟨⟨rfl, rfl⟩, rfl⟩ := hevent
    obtain ⟨⟨request, token, presentedAt⟩, hget, heq⟩ := Option.map_eq_some_iff.mp hwaits
    obtain ⟨rfl, rfl⟩ := Prod.mk.inj heq
    have hfits := (hkept.honours_iff _).mp hlast (Option.isNone_iff_eq_none.mp hidle) request _ _ hget
      ⟨3600, 0, List.mem_append_right _ hmem, le_refl 0, by decide⟩
    rcases hfits with hfound | hjwt
    · rw [searchKeys_iff.mpr hfound] at hunknown
      cases hunknown
    · cases hjwt
  · cases hevent

end RestBridge

end Alpine
