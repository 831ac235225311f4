import Mathlib.Algebra.Order.Ring.Int
import Alpine.Lib.Run
import Alpine.RestBridge.HttpRequest

/-!
# The API key and its rotation

`validate` compares the token of a request with the current key, which it reads without the lock,
and then looks through the list of keys under the lock. `rotateKey` reads the clock, takes the lock,
deprecates the keys of the list, enters the new one, erases and sets the current key, and drops what
has expired. Each of these is a step of the machine, so that a run is any interleaving of calls with
the time between them. The time at which a key expires is an `int64_t` sum of nanoseconds.
-/

namespace Alpine

open Lib

abbrev ApiKey := List UInt8

structure KeyEntry where
  key : ApiKey
  /-- Nanoseconds of the steady clock. -/
  expiresAt : Int
  deprecated : Bool
  deriving DecidableEq, Repr

/-- A call of `rotateKey` that waits for the lock: the grace period, the new key, and the time. -/
structure Rotation where
  gracePeriod : Int
  newKey : ApiKey
  now : Int
  deriving DecidableEq, Repr

/-- When the grace period ends. -/
def Rotation.deadline (rotation : Rotation) : Int :=
  rotation.now + rotation.gracePeriod * 1000000000

/-- How far the call that has the lock is. -/
inductive RotationPhase where
  | entered
  | erased
  | assigned
  deriving DecidableEq, Repr

structure ApiKeyAuth where
  apiKey : ApiKey
  keys : List KeyEntry
  clock : Int
  /-- The call of `rotateKey` that has the lock, with its new key. -/
  locked : Option (RotationPhase × ApiKey)
  rotations : List Rotation
  /-- Calls of `validate` that wait for the lock, with the token of the request. -/
  validations : List (HttpRequest × ApiKey)

inductive AuthCall where
  /-- `none` is a random source that fails. -/
  | rotateKey (gracePeriodSec : UInt64) (randomBytes : Option (Vector UInt8 32))
  | enterKey (i : Nat)
  | eraseKey
  | assignKey
  | purgeExpiredKeys
  | validate (request : HttpRequest)
  | searchKeys (i : Nat)
  | tick (duration : Nat)

inductive AuthEvent where
  /-- The key is current from here on. -/
  | assigned (key : ApiKey)
  /-- The key was replaced by a rotation whose time and grace period add up to the deadline. -/
  | replaced (key : ApiKey) (deadline : Int)
  | rotated
  | failed
  | validated (request : HttpRequest) (answer : Bool)

namespace ApiKeyAuth

/-- `time_point::max()`. -/
def timeMax : Int := 2 ^ 63 - 1

/-- A signed 64-bit value. -/
def wrap64 (x : Int) : Int := Int.bmod x (2 ^ 64)

/-- The state after `initialize` with a key. -/
def start (key : ApiKey) : ApiKeyAuth := ⟨key, [⟨key, timeMax, false⟩], 0, none, [], []⟩

/-! ## Requests -/

/-- `GET` requests to `/status` need no key. -/
def isExempt (request : HttpRequest) : Bool :=
  request.method = utf8 "GET".toList && (utf8 "/status".toList).isPrefixOf request.path

def authHeader (request : HttpRequest) : List UInt8 :=
  match request.headers.find (utf8 "Authorization".toList) with
  | some value => value
  | none => (request.headers.find (utf8 "authorization".toList)).getD []

/-- What is behind `Bearer ` in the header. -/
def bearerToken (request : HttpRequest) : Option ApiKey :=
  if (utf8 "Bearer ".toList).isPrefixOf (authHeader request) then
    some ((authHeader request).drop 7)
  else none

/-! ## The calls -/

def hexChars : List UInt8 := utf8 "0123456789abcdef".toList

def hexKey (randomBytes : List UInt8) : ApiKey :=
  randomBytes.flatMap fun b => [hexChars.getD (b.toNat / 16) 0, hexChars.getD (b.toNat % 16) 0]

/-- `now + gracePeriod` as a time point in nanoseconds. -/
def expiry (rotation : Rotation) : Int :=
  wrap64 (rotation.now + wrap64 (wrap64 rotation.gracePeriod * 1000000000))

def deprecateEntry (rotation : Rotation) (entry : KeyEntry) : KeyEntry :=
  if entry.deprecated then entry
  else { entry with deprecated := true, expiresAt := expiry rotation }

/-- The list as the lock holder leaves it: all keys deprecated, and the new one before them. -/
def enterKey (keys : List KeyEntry) (rotation : Rotation) : List KeyEntry :=
  ⟨rotation.newKey, timeMax, false⟩ :: keys.map (deprecateEntry rotation)

def purge (keys : List KeyEntry) (now : Int) : List KeyEntry :=
  keys.filter fun entry => !(entry.deprecated && entry.expiresAt ≤ now)

/-- The loop of `validate` over the list. -/
def searchKeys (keys : List KeyEntry) (now : Int) (token : ApiKey) : Bool :=
  keys.any fun entry => now < entry.expiresAt && entry.key = token

/-- What `validate` does before it takes the lock; `none` if it goes on. -/
def validateFirst (auth : ApiKeyAuth) (request : HttpRequest) : Option Bool :=
  if isExempt request then some true
  else if auth.apiKey = [] then some false
  else
    match bearerToken request with
    | none => some false
    | some token => if auth.apiKey = token then some true else none

/-- `rotateKey` up to the lock. -/
def drawKey (auth : ApiKeyAuth) (gracePeriodSec : UInt64) (randomBytes : Option (Vector UInt8 32)) :
    ApiKeyAuth × List AuthEvent :=
  match randomBytes with
  | none => (auth, [.failed])
  | some randomBytes =>
    ({ auth with rotations := auth.rotations ++
        [⟨gracePeriodSec.toNat, hexKey randomBytes.toList, auth.clock⟩] }, [])

/-- A waiting rotation gets the lock and enters its key. -/
def enterNext (auth : ApiKeyAuth) (i : Nat) : ApiKeyAuth × List AuthEvent :=
  match auth.locked, auth.rotations[i]? with
  | none, some rotation =>
    ({ auth with
        keys := enterKey auth.keys rotation
        locked := some (.entered, rotation.newKey)
        rotations := auth.rotations.eraseIdx i },
      (auth.keys.filter fun entry => !entry.deprecated).map fun entry =>
        .replaced entry.key rotation.deadline)
  | _, _ => (auth, [])

/-- `apiKey_s.assign` erases what was there. -/
def eraseKey (auth : ApiKeyAuth) : ApiKeyAuth × List AuthEvent :=
  match auth.locked with
  | some (.entered, newKey) => ({ auth with apiKey := [], locked := some (.erased, newKey) }, [])
  | _ => (auth, [])

def assignKey (auth : ApiKeyAuth) : ApiKeyAuth × List AuthEvent :=
  match auth.locked with
  | some (.erased, newKey) =>
    ({ auth with apiKey := newKey, locked := some (.assigned, newKey) }, [.assigned newKey])
  | _ => (auth, [])

/-- The end of `rotateKey`, which reads the clock again and gives the lock back. -/
def purgeExpiredKeys (auth : ApiKeyAuth) : ApiKeyAuth × List AuthEvent :=
  match auth.locked with
  | some (.assigned, _) =>
      ({ auth with keys := purge auth.keys auth.clock, locked := none }, [.rotated])
  | _ => (auth, [])

def validate (auth : ApiKeyAuth) (request : HttpRequest) : ApiKeyAuth × List AuthEvent :=
  match auth.validateFirst request with
  | some answer => (auth, [.validated request answer])
  | none =>
    ({ auth with validations := auth.validations ++ [(request, (bearerToken request).getD [])] }, [])

/-- A waiting validation gets the lock. -/
def searchNext (auth : ApiKeyAuth) (i : Nat) : ApiKeyAuth × List AuthEvent :=
  match auth.locked, auth.validations[i]? with
  | none, some (request, token) =>
    ({ auth with validations := auth.validations.eraseIdx i },
      [.validated request (searchKeys auth.keys auth.clock token)])
  | _, _ => (auth, [])

/-- The clock stays below the largest time point. -/
def tick (auth : ApiKeyAuth) (duration : Nat) : ApiKeyAuth :=
  if auth.clock + duration < timeMax then { auth with clock := auth.clock + duration } else auth

def step (auth : ApiKeyAuth) : AuthCall → ApiKeyAuth × List AuthEvent
  | .rotateKey gracePeriodSec randomBytes => auth.drawKey gracePeriodSec randomBytes
  | .enterKey i => auth.enterNext i
  | .eraseKey => auth.eraseKey
  | .assignKey => auth.assignKey
  | .purgeExpiredKeys => auth.purgeExpiredKeys
  | .validate request => auth.validate request
  | .searchKeys i => auth.searchNext i
  | .tick duration => (auth.tick duration, [])

def machine : Machine ApiKeyAuth AuthCall AuthEvent := ⟨step⟩

/-!
## Runs of the key rotation

The events of a run say which key is current and until when each replaced key is good. In every run
the list of keys holds exactly that, and a request is answered by it, unless the sum of the time and
the grace period does not fit the clock or a request comes in the moment between the erasure of the
current key and its assignment; `StepFits` is the exact condition (`along_rotates_iff`).
-/

/-! ### What a run says -/

/-- The key that was assigned last. -/
def currentKey (history : List AuthEvent) : Option ApiKey :=
  history.foldl (fun key event => match event with | .assigned key => some key | _ => key) none

theorem currentKey_append (history : List AuthEvent) (event : AuthEvent) :
    currentKey (history ++ [event]) =
      match event with | .assigned key => some key | _ => currentKey history := by
  rw [currentKey, List.foldl_append]
  rfl

/-- The token is the current key, or a replaced one before its deadline. -/
def Accepted (history : List AuthEvent) (clock : Int) (token : ApiKey) : Prop :=
  currentKey history = some token ∨ ∃ deadline, .replaced token deadline ∈ history ∧
    clock < deadline

/-- The request may pass. -/
def Passes (history : List AuthEvent) (clock : Int) (request : HttpRequest) : Prop :=
  isExempt request = true ∨ ∃ token, bearerToken request = some token ∧
    Accepted history clock token

/-- One key is current, and when no rotation is under way it is the only one that is not deprecated.
A replaced key expires at its deadline, and it is in the list until then. -/
structure Valid (history : List AuthEvent) (auth : ApiKeyAuth) : Prop where
  current : ∃ key, currentKey history = some key ∧ (auth.locked = none →
    auth.apiKey = key ∧ (auth.keys.filter fun entry => !entry.deprecated).map KeyEntry.key = [key])
  expires : ∀ entry ∈ auth.keys, entry.deprecated = true →
    .replaced entry.key entry.expiresAt ∈ history
  held : ∀ key deadline, .replaced key deadline ∈ history → auth.clock < deadline →
    ⟨key, deadline, true⟩ ∈ auth.keys

/-- A step ends in a valid state; a request is answered by what the run says of its token; a
rotation that fails changes nothing, and one that ends has dropped all that is expired. -/
structure StepSound (history : List AuthEvent) (auth : ApiKeyAuth) (call : AuthCall) : Prop where
  valid : Valid (history ++ (step auth call).2) (step auth call).1
  answers : ∀ request answer, .validated request answer ∈ (step auth call).2 →
    (answer = true ↔ Passes history auth.clock request)
  failed : .failed ∈ (step auth call).2 → (step auth call).1 = auth
  dropped : .rotated ∈ (step auth call).2 →
    ∀ entry ∈ (step auth call).1.keys, auth.clock < entry.expiresAt

/-- The rotation that enters its key ends its grace period at a time of the clock, and no request
that may pass comes while the current key is erased. -/
def StepFits (history : List AuthEvent) (auth : ApiKeyAuth) : AuthCall → Prop
  | .enterKey i => auth.locked = none → ∀ rotation, auth.rotations[i]? = some rotation →
      rotation.deadline ≤ timeMax
  | .validate request => (∃ key, auth.locked = some (.erased, key)) →
      isExempt request = true ∨ ¬ Passes history auth.clock request
  | _ => True

/-! ### The arithmetic of the deadline -/

theorem wrap64_le (x : Int) : wrap64 x ≤ timeMax := by
  have := Int.bmod_lt (x := x) (m := 2 ^ 64) (by decide)
  unfold wrap64 timeMax
  omega

theorem wrap64_of_le {x : Int} (h : 0 ≤ x) (h' : x ≤ timeMax) : wrap64 x = x := by
  unfold timeMax at h'
  exact Int.bmod_eq_of_le (by omega) (by omega)

/-- A deadline that the clock can reach is computed without wrapping. -/
theorem expiry_eq {rotation : Rotation} (hnow : 0 ≤ rotation.now)
    (hgrace : 0 ≤ rotation.gracePeriod) (h : rotation.deadline ≤ timeMax) :
    expiry rotation = rotation.deadline := by
  unfold Rotation.deadline at h ⊢
  have hproduct : wrap64 (rotation.gracePeriod * 1000000000) = rotation.gracePeriod * 1000000000 :=
    wrap64_of_le (by omega) (by omega)
  unfold expiry
  rw [wrap64_of_le hgrace (by omega), hproduct]
  exact wrap64_of_le (by omega) h

/-! ### What every run keeps -/

/-- The current key, the first key of the list and the run, by how far the lock holder is. -/
def CellFor (history : List AuthEvent) (auth : ApiKeyAuth) (newest : ApiKey) : Prop :=
  match auth.locked with
  | none => currentKey history = some newest ∧ auth.apiKey = newest
  | some (.entered, key) => newest = key ∧ currentKey history = some auth.apiKey ∧ auth.apiKey ≠ []
  | some (.erased, key) => newest = key ∧ auth.apiKey = [] ∧ (currentKey history).isSome = true
  | some (.assigned, _) => currentKey history = some newest ∧ auth.apiKey = newest

structure Kept (history : List AuthEvent) (auth : ApiKeyAuth) : Prop where
  clock : 0 ≤ auth.clock ∧ auth.clock < timeMax
  waiting : ∀ rotation ∈ auth.rotations,
    0 ≤ rotation.now ∧ 0 ≤ rotation.gracePeriod ∧ rotation.newKey ≠ []
  validating : ∀ pending ∈ auth.validations,
    isExempt pending.1 = false ∧ bearerToken pending.1 = some pending.2
  list : ∃ newest old, auth.keys = ⟨newest, timeMax, false⟩ :: old ∧ newest ≠ [] ∧
    CellFor history auth newest ∧
    (∀ entry ∈ old, entry.deprecated = true ∧ entry.expiresAt ≤ timeMax ∧
      .replaced entry.key entry.expiresAt ∈ history) ∧
    ∀ key deadline, .replaced key deadline ∈ history → auth.clock < deadline →
      ⟨key, deadline, true⟩ ∈ old

variable {history : List AuthEvent} {auth : ApiKeyAuth}

theorem kept_start {key : ApiKey} (h : key ≠ []) : Kept [.assigned key] (start key) where
  clock := ⟨Int.le_refl 0, (by decide : (0 : Int) < timeMax)⟩
  waiting _ hmem := by cases hmem
  validating _ hmem := by cases hmem
  list := by
    refine ⟨key, [], rfl, h, ⟨rfl, rfl⟩, fun _ hmem => (by cases hmem), fun k d hmem => ?_⟩
    cases List.mem_singleton.mp hmem

theorem filter_old {old : List KeyEntry} (h : ∀ entry ∈ old, entry.deprecated = true) :
    (old.filter fun entry => !entry.deprecated) = [] := by
  refine List.filter_eq_nil_iff.mpr fun entry hmem => ?_
  rw [h entry hmem]
  decide

theorem Kept.valid (h : Kept history auth) : Valid history auth := by
  obtain ⟨newest, old, hkeys, hne, hcell, hold, hheld⟩ := h.list
  have hfilter : (auth.keys.filter fun entry => !entry.deprecated).map KeyEntry.key = [newest] := by
    rw [hkeys, List.filter_cons_of_pos rfl, filter_old fun entry hmem => (hold entry hmem).1]
    rfl
  refine ⟨?_, fun entry hmem hdep => ?_, fun key deadline hmem hlt => ?_⟩
  · rw [hfilter]
    unfold CellFor at hcell
    split at hcell
    · exact ⟨newest, hcell.1, fun _ => ⟨hcell.2, rfl⟩⟩
    · next hlock => exact ⟨_, hcell.2.1, fun hnone => by rw [hlock] at hnone; cases hnone⟩
    · next hlock =>
      obtain ⟨key, hkey⟩ := Option.isSome_iff_exists.mp hcell.2.2
      exact ⟨key, hkey, fun hnone => by rw [hlock] at hnone; cases hnone⟩
    · exact ⟨newest, hcell.1, fun _ => ⟨hcell.2, rfl⟩⟩
  · rw [hkeys] at hmem
    rcases List.mem_cons.mp hmem with rfl | hmem
    · cases hdep
    · exact (hold entry hmem).2.2
  · rw [hkeys]
    exact List.mem_cons_of_mem _ (hheld key deadline hmem hlt)

/-- The loop over the list finds what the run says, when no rotation is under way. -/
theorem Kept.searchKeys_iff (h : Kept history auth) (hlock : auth.locked = none)
    (token : ApiKey) :
    searchKeys auth.keys auth.clock token = true ↔ Accepted history auth.clock token := by
  obtain ⟨newest, old, hkeys, -, hcell, hold, hheld⟩ := h.list
  unfold CellFor at hcell
  rw [hlock] at hcell
  rw [searchKeys, List.any_eq_true, Accepted, hcell.1, hkeys]
  constructor
  · rintro ⟨entry, hmem, hfound⟩
    rw [Bool.and_eq_true, decide_eq_true_eq, decide_eq_true_eq] at hfound
    obtain ⟨hlt, rfl⟩ := hfound
    rcases List.mem_cons.mp hmem with rfl | hmem
    · exact .inl rfl
    · exact .inr ⟨entry.expiresAt, (hold entry hmem).2.2, hlt⟩
  · rintro (hcurrent | ⟨deadline, hmem, hlt⟩)
    · refine ⟨_, List.mem_cons_self, ?_⟩
      rw [Bool.and_eq_true, decide_eq_true_eq, decide_eq_true_eq]
      exact ⟨h.clock.2, Option.some.inj hcurrent⟩
    · refine ⟨_, List.mem_cons_of_mem _ (hheld token deadline hmem hlt), ?_⟩
      rw [Bool.and_eq_true, decide_eq_true_eq, decide_eq_true_eq]
      exact ⟨hlt, rfl⟩

/-- The current key is erased at no other time than between its two steps. -/
theorem Kept.apiKey (h : Kept history auth) (hlock : ¬ ∃ key, auth.locked = some (.erased, key)) :
    auth.apiKey ≠ [] ∧ currentKey history = some auth.apiKey := by
  obtain ⟨newest, old, -, hne, hcell, -⟩ := h.list
  unfold CellFor at hcell
  split at hcell
  · exact ⟨hcell.2 ▸ hne, hcell.2 ▸ hcell.1⟩
  · exact ⟨hcell.2.2, hcell.2.1⟩
  · next key hkey => exact absurd ⟨key, hkey⟩ hlock
  · exact ⟨hcell.2 ▸ hne, hcell.2 ▸ hcell.1⟩

/-! ### Steps -/

theorem mem_append_one {history : List AuthEvent} {event event' : AuthEvent} (hne : event ≠ event') :
    event ∈ history ++ [event'] ↔ event ∈ history := by
  rw [List.mem_append, List.mem_singleton]
  exact ⟨fun h => h.resolve_right hne, .inl⟩

theorem hexKey_ne_nil (bytes : Vector UInt8 32) : hexKey bytes.toList ≠ [] := by
  have hlen : bytes.toList.length = 32 := Vector.length_toList
  obtain ⟨b, rest, hb⟩ := List.exists_cons_of_length_eq_add_one hlen
  rw [hb]
  exact List.cons_ne_nil _ _

/-- A change that leaves the keys, the current key and the lock alone, and an event that is no
assignment and no replacement, keep the list. -/
theorem Kept.quiet (h : Kept history auth) {auth' : ApiKeyAuth} {events : List AuthEvent}
    (hkeys : auth'.keys = auth.keys) (hcell : auth'.apiKey = auth.apiKey)
    (hlock : auth'.locked = auth.locked) (hclock : auth.clock ≤ auth'.clock)
    (hmax : auth'.clock < timeMax)
    (hwaiting : ∀ rotation ∈ auth'.rotations,
      0 ≤ rotation.now ∧ 0 ≤ rotation.gracePeriod ∧ rotation.newKey ≠ [])
    (hvalidating : ∀ pending ∈ auth'.validations,
      isExempt pending.1 = false ∧ bearerToken pending.1 = some pending.2)
    (hcurrent : currentKey (history ++ events) = currentKey history)
    (hevents : ∀ key deadline, .replaced key deadline ∈ history ++ events →
      .replaced key deadline ∈ history) : Kept (history ++ events) auth' where
  clock := ⟨h.clock.1.trans hclock, hmax⟩
  waiting := hwaiting
  validating := hvalidating
  list := by
    obtain ⟨newest, old, hk, hne, hc, hold, hheld⟩ := h.list
    refine ⟨newest, old, hkeys.trans hk, hne, ?_,
      fun entry hmem => ?_, fun key deadline hmem hlt => ?_⟩
    · unfold CellFor at hc ⊢
      rw [hlock, hcell, hcurrent]
      exact hc
    · obtain ⟨hdep, hle, hrep⟩ := hold entry hmem
      exact ⟨hdep, hle, List.mem_append_left _ hrep⟩
    · exact hheld key deadline (hevents key deadline hmem) (lt_of_le_of_lt hclock hlt)

/-- A step that emits nothing and keeps the state. -/
theorem Kept.idle (h : Kept history auth) : Kept (history ++ []) auth := by
  rwa [List.append_nil]

/-- What is deprecated already is left alone. -/
theorem map_deprecateEntry {old : List KeyEntry} (h : ∀ entry ∈ old, entry.deprecated = true)
    (rotation : Rotation) : old.map (deprecateEntry rotation) = old := by
  refine (List.map_congr_left fun entry hmem => ?_).trans (List.map_id old)
  rw [deprecateEntry, if_pos (h entry hmem)]
  rfl

/-- The list and the event of a rotation that gets the lock. -/
theorem Kept.enterNext_eq (h : Kept history auth) {i : Nat} {rotation : Rotation}
    (hlock : auth.locked = none) (hget : auth.rotations[i]? = some rotation) :
    ∃ newest old, auth.keys = ⟨newest, timeMax, false⟩ :: old ∧
      auth.enterNext i =
        ({ auth with
            keys := ⟨rotation.newKey, timeMax, false⟩ :: ⟨newest, expiry rotation, true⟩ :: old
            locked := some (.entered, rotation.newKey)
            rotations := auth.rotations.eraseIdx i },
          [.replaced newest rotation.deadline]) := by
  obtain ⟨newest, old, hkeys, -, -, hold, -⟩ := h.list
  have hdep : ∀ entry ∈ old, entry.deprecated = true := fun entry hmem => (hold entry hmem).1
  refine ⟨newest, old, hkeys, ?_⟩
  unfold enterNext
  rw [hlock, hget]
  dsimp only
  rw [enterKey, hkeys, List.map_cons, map_deprecateEntry hdep, List.filter_cons_of_pos rfl,
    filter_old hdep]
  rfl

theorem Kept.enterNext (h : Kept history auth) {i : Nat}
    (hfits : StepFits history auth (.enterKey i)) :
    Kept (history ++ (auth.enterNext i).2) (auth.enterNext i).1 := by
  cases hlock : auth.locked with
  | some holder =>
    have hidle : auth.enterNext i = (auth, []) := by
      unfold ApiKeyAuth.enterNext
      rw [hlock]
    rw [hidle]
    exact h.idle
  | none =>
    cases hget : auth.rotations[i]? with
    | none =>
      have hidle : auth.enterNext i = (auth, []) := by
        unfold ApiKeyAuth.enterNext
        rw [hlock, hget]
      rw [hidle]
      exact h.idle
    | some rotation =>
      obtain ⟨newest, old, hkeys, heq⟩ := h.enterNext_eq hlock hget
      obtain ⟨newest', old', hkeys', hne, hcell, hold, hheld⟩ := h.list
      obtain ⟨⟨rfl, -⟩, rfl⟩ : (newest' = newest ∧ True) ∧ old' = old := by
        rw [hkeys, List.cons.injEq, KeyEntry.mk.injEq] at hkeys'
        exact ⟨⟨hkeys'.1.1.symm, trivial⟩, hkeys'.2.symm⟩
      obtain ⟨hnow, hgrace, hnew⟩ := h.waiting rotation (List.mem_of_getElem? hget)
      have hdeadline := hfits hlock rotation hget
      have hexpiry := expiry_eq hnow hgrace hdeadline
      rw [heq]
      refine ⟨h.clock, fun r hmem => h.waiting r (List.mem_of_mem_eraseIdx hmem), h.validating,
        rotation.newKey, _, rfl, hnew, ?_, fun entry hmem => ?_, fun key deadline hmem hlt => ?_⟩
      · unfold CellFor at hcell ⊢
        rw [hlock] at hcell
        refine ⟨rfl, ?_, hcell.2 ▸ hne⟩
        rw [currentKey_append]
        exact hcell.2 ▸ hcell.1
      · rcases List.mem_cons.mp hmem with rfl | hmem
        · refine ⟨rfl, wrap64_le _, ?_⟩
          rw [hexpiry]
          exact List.mem_append_right _ List.mem_cons_self
        · obtain ⟨hdep, hle, hrep⟩ := hold entry hmem
          exact ⟨hdep, hle, List.mem_append_left _ hrep⟩
      · rcases List.mem_append.mp hmem with hmem | hmem
        · exact List.mem_cons_of_mem _ (hheld key deadline hmem hlt)
        · cases List.mem_singleton.mp hmem
          rw [hexpiry]
          exact List.mem_cons_self

theorem Kept.eraseKey (h : Kept history auth) :
    Kept (history ++ auth.eraseKey.2) auth.eraseKey.1 := by
  unfold ApiKeyAuth.eraseKey
  split
  · next key hlock =>
    obtain ⟨newest, old, hkeys, hne, hcell, hrest⟩ := h.list
    rw [List.append_nil]
    refine ⟨h.clock, h.waiting, h.validating, newest, old, hkeys, hne, ?_, hrest⟩
    unfold CellFor at hcell ⊢
    rw [hlock] at hcell
    exact ⟨hcell.1, rfl, by rw [hcell.2.1]; rfl⟩
  · exact h.idle

theorem Kept.assignKey (h : Kept history auth) :
    Kept (history ++ auth.assignKey.2) auth.assignKey.1 := by
  unfold ApiKeyAuth.assignKey
  split
  · next key hlock =>
    obtain ⟨newest, old, hkeys, hne, hcell, hold, hheld⟩ := h.list
    refine ⟨h.clock, h.waiting, h.validating, newest, old, hkeys, hne, ?_, fun entry hmem => ?_,
      fun k deadline hmem hlt => ?_⟩
    · unfold CellFor at hcell ⊢
      rw [hlock] at hcell
      obtain ⟨rfl, -⟩ := hcell
      exact ⟨currentKey_append .., rfl⟩
    · obtain ⟨hdep, hle, hrep⟩ := hold entry hmem
      exact ⟨hdep, hle, List.mem_append_left _ hrep⟩
    · exact hheld k deadline ((mem_append_one (fun heq => (by cases heq))).mp hmem) hlt
  · exact h.idle

/-- The purge keeps what is not expired. -/
theorem purge_eq {newest : ApiKey} {old : List KeyEntry}
    (hkeys : auth.keys = ⟨newest, timeMax, false⟩ :: old)
    (hold : ∀ entry ∈ old, entry.deprecated = true) :
    purge auth.keys auth.clock =
      ⟨newest, timeMax, false⟩ :: old.filter fun entry => auth.clock < entry.expiresAt := by
  rw [hkeys, purge, List.filter_cons_of_pos rfl]
  refine congrArg _ (List.filter_congr fun entry hmem => ?_)
  rw [hold entry hmem, Bool.true_and]
  grind

theorem Kept.purgeExpiredKeys (h : Kept history auth) :
    Kept (history ++ auth.purgeExpiredKeys.2) auth.purgeExpiredKeys.1 := by
  unfold ApiKeyAuth.purgeExpiredKeys
  split
  · next key hlock =>
    obtain ⟨newest, old, hkeys, hne, hcell, hold, hheld⟩ := h.list
    refine ⟨h.clock, h.waiting, h.validating, newest, _,
      purge_eq hkeys fun entry hmem => (hold entry hmem).1, hne, ?_, fun entry hmem => ?_,
      fun k deadline hmem hlt => ?_⟩
    · unfold CellFor at hcell ⊢
      rw [hlock] at hcell
      dsimp only at hcell ⊢
      rw [currentKey_append]
      exact hcell
    · obtain ⟨hdep, hle, hrep⟩ := hold entry (List.mem_of_mem_filter hmem)
      exact ⟨hdep, hle, List.mem_append_left _ hrep⟩
    · have hmem := hheld k deadline ((mem_append_one (fun heq => (by cases heq))).mp hmem) hlt
      exact List.mem_filter.mpr ⟨hmem, decide_eq_true hlt⟩
  · exact h.idle

theorem currentKey_validated (request : HttpRequest) (answer : Bool) :
    currentKey (history ++ [AuthEvent.validated request answer]) = currentKey history :=
  currentKey_append ..

/-- A request that is answered leaves everything else as it is. -/
theorem Kept.answered (h : Kept history auth) (request : HttpRequest) (answer : Bool)
    {validations : List (HttpRequest × ApiKey)} (hsub : ∀ p ∈ validations, p ∈ auth.validations) :
    Kept (history ++ [AuthEvent.validated request answer])
      { auth with validations := validations } :=
  h.quiet rfl rfl rfl (Int.le_refl _) h.clock.2 h.waiting (fun p hmem => h.validating p (hsub p hmem))
    (currentKey_validated request answer)
    fun _ _ hmem => (mem_append_one (fun heq => (by cases heq))).mp hmem

theorem Kept.step {call : AuthCall} (h : Kept history auth) (hfits : StepFits history auth call) :
    Kept (history ++ (step auth call).2) (step auth call).1 := by
  cases call with
  | rotateKey gracePeriodSec randomBytes =>
    cases randomBytes with
    | none =>
      exact h.quiet rfl rfl rfl (Int.le_refl _) h.clock.2 h.waiting h.validating
        (currentKey_append ..) fun _ _ hmem => (mem_append_one (fun heq => (by cases heq))).mp hmem
    | some randomBytes =>
      show Kept (history ++ []) _
      rw [List.append_nil]
      refine ⟨h.clock, fun r hmem => ?_, h.validating, h.list⟩
      rcases List.mem_append.mp hmem with hmem | hmem
      · exact h.waiting r hmem
      · rw [List.mem_singleton.mp hmem]
        exact ⟨h.clock.1, Int.natCast_nonneg _, hexKey_ne_nil randomBytes⟩
  | enterKey i => exact h.enterNext hfits
  | eraseKey => exact h.eraseKey
  | assignKey => exact h.assignKey
  | purgeExpiredKeys => exact h.purgeExpiredKeys
  | validate request =>
    show Kept (history ++ (auth.validate request).2) (auth.validate request).1
    unfold ApiKeyAuth.validate
    split
    · exact h.answered request _ fun _ hmem => hmem
    · next hfirst =>
      rw [List.append_nil]
      refine ⟨h.clock, h.waiting, fun p hmem => ?_, h.list⟩
      rcases List.mem_append.mp hmem with hmem | hmem
      · exact h.validating p hmem
      · rw [List.mem_singleton.mp hmem]
        unfold validateFirst at hfirst
        split at hfirst
        · cases hfirst
        next hexempt =>
        split at hfirst
        · cases hfirst
        split at hfirst
        · cases hfirst
        · next token htoken =>
          refine ⟨Bool.eq_false_of_not_eq_true hexempt, ?_⟩
          show bearerToken request = some ((bearerToken request).getD [])
          rw [htoken]
          rfl
  | searchKeys i =>
    show Kept (history ++ (auth.searchNext i).2) (auth.searchNext i).1
    unfold searchNext
    split
    · next request token _ _ =>
      exact h.answered request _ fun _ hmem => List.mem_of_mem_eraseIdx hmem
    · exact h.idle
  | tick duration =>
    show Kept (history ++ []) (auth.tick duration)
    unfold tick
    split
    · next hmax =>
      exact h.quiet rfl rfl rfl (by show auth.clock ≤ auth.clock + duration; omega) hmax h.waiting
        h.validating (by rw [List.append_nil]) fun _ _ hmem => by rwa [List.append_nil] at hmem
    · exact h.idle

/-! ### Which steps are sound -/

/-- While the current key is there, what is decided without the lock is decided by the run. -/
theorem Kept.validateFirst_iff (h : Kept history auth)
    (hlock : ¬ ∃ key, auth.locked = some (.erased, key)) {request : HttpRequest} {answer : Bool}
    (hanswer : auth.validateFirst request = some answer) :
    answer = true ↔ Passes history auth.clock request := by
  obtain ⟨hne, hcurrent⟩ := h.apiKey hlock
  unfold validateFirst at hanswer
  unfold Passes
  split at hanswer
  · next hexempt =>
    cases hanswer
    exact ⟨fun _ => .inl hexempt, fun _ => rfl⟩
  next hexempt =>
  split at hanswer
  · next htoken =>
    cases hanswer
    refine ⟨fun hfalse => (by cases hfalse), ?_⟩
    rintro (hyes | ⟨token, hsome, -⟩)
    · exact absurd hyes hexempt
    · rw [htoken] at hsome
      cases hsome
  · next token htoken =>
    split at hanswer
    · next heq =>
      cases hanswer
      exact ⟨fun _ => .inr ⟨token, htoken, .inl (heq ▸ hcurrent)⟩, fun _ => rfl⟩
    · cases hanswer

/-- While it is erased, only exempt requests pass. -/
theorem validateFirst_erased (h : auth.apiKey = []) (request : HttpRequest) :
    auth.validateFirst request = some (isExempt request) := by
  unfold validateFirst
  cases hexempt : isExempt request with
  | true => rfl
  | false =>
    rw [if_neg Bool.false_ne_true, if_pos h]

theorem Kept.erased (h : Kept history auth) {key : ApiKey}
    (hlock : auth.locked = some (.erased, key)) : auth.apiKey = [] := by
  obtain ⟨newest, old, -, -, hcell, -⟩ := h.list
  unfold CellFor at hcell
  rw [hlock] at hcell
  exact hcell.2.1

/-- A request is answered by the run in a step that fits. -/
theorem Kept.validate_answers (h : Kept history auth) {request : HttpRequest}
    (hfits : StepFits history auth (.validate request)) (r : HttpRequest) (answer : Bool)
    (hmem : .validated r answer ∈ (auth.validate request).2) :
    answer = true ↔ Passes history auth.clock r := by
  unfold ApiKeyAuth.validate at hmem
  split at hmem
  · next answer' hfirst =>
    cases List.mem_singleton.mp hmem
    by_cases hlock : ∃ key, auth.locked = some (.erased, key)
    · obtain ⟨key, hkey⟩ := hlock
      have hexempt := (validateFirst_erased (h.erased hkey) request).symm.trans hfirst
      cases hexempt
      rcases hfits ⟨key, hkey⟩ with hyes | hno
      · rw [hyes]
        exact ⟨fun _ => .inl hyes, fun _ => rfl⟩
      · exact ⟨fun hyes => .inl hyes, fun hpass => absurd hpass hno⟩
    · exact h.validateFirst_iff hlock hfirst
  · cases hmem

theorem Kept.searchNext_answers (h : Kept history auth) {i : Nat} (r : HttpRequest) (answer : Bool)
    (hmem : .validated r answer ∈ (auth.searchNext i).2) :
    answer = true ↔ Passes history auth.clock r := by
  unfold searchNext at hmem
  split at hmem
  · next request token hlock hget =>
    cases List.mem_singleton.mp hmem
    obtain ⟨hexempt, htoken⟩ := h.validating _ (List.mem_of_getElem? hget)
    dsimp only at hexempt htoken
    rw [h.searchKeys_iff hlock, Passes]
    constructor
    · exact fun haccepted => .inr ⟨token, htoken, haccepted⟩
    · rintro (hyes | ⟨token', htoken', haccepted⟩)
      · rw [hexempt] at hyes
        cases hyes
      · rwa [Option.some.inj (htoken.symm.trans htoken')]
  · cases hmem

theorem Kept.dropped (h : Kept history auth)
    (hmem : .rotated ∈ auth.purgeExpiredKeys.2) :
    ∀ entry ∈ auth.purgeExpiredKeys.1.keys, auth.clock < entry.expiresAt := by
  obtain ⟨newest, old, hkeys, -, -, hold, -⟩ := h.list
  unfold ApiKeyAuth.purgeExpiredKeys at hmem ⊢
  split at hmem
  · dsimp only
    rw [purge_eq hkeys fun entry hmem => (hold entry hmem).1]
    intro entry hentry
    rcases List.mem_cons.mp hentry with rfl | hentry
    · exact h.clock.2
    · exact of_decide_eq_true (List.mem_filter.mp hentry).2
  · cases hmem

theorem enterNext_replaced (auth : ApiKeyAuth) (i : Nat) :
    ∀ event ∈ (auth.enterNext i).2, ∃ key deadline, event = .replaced key deadline := by
  unfold enterNext
  split
  · intro event hmem
    obtain ⟨entry, -, rfl⟩ := List.mem_map.mp hmem
    exact ⟨_, _, rfl⟩
  · exact fun event hmem => (by cases hmem)

theorem Kept.sound (h : Kept history auth) {call : AuthCall}
    (hfits : StepFits history auth call) : StepSound history auth call := by
  have hvalid := (h.step hfits).valid
  cases call with
  | rotateKey gracePeriodSec randomBytes =>
    cases randomBytes with
    | none =>
      refine ⟨hvalid, fun r a hmem => ?_, fun _ => rfl, fun hmem => ?_⟩
      · cases List.mem_singleton.mp hmem
      · cases List.mem_singleton.mp hmem
    | some randomBytes =>
      exact ⟨hvalid, fun r a hmem => (by cases hmem), fun hmem => (by cases hmem),
        fun hmem => (by cases hmem)⟩
  | enterKey i =>
    have honly := enterNext_replaced auth i
    refine ⟨hvalid, fun r a hmem => ?_, fun hmem => ?_, fun hmem => ?_⟩ <;>
      obtain ⟨key, deadline, heq⟩ := honly _ hmem <;> cases heq
  | eraseKey =>
    have hnone : ∀ event, event ∉ auth.eraseKey.2 := by
      unfold ApiKeyAuth.eraseKey
      split <;> exact fun event hmem => (by cases hmem)
    exact ⟨hvalid, fun r a hmem => absurd hmem (hnone _), fun hmem => absurd hmem (hnone _),
      fun hmem => absurd hmem (hnone _)⟩
  | assignKey =>
    have honly : ∀ event ∈ auth.assignKey.2, ∃ key, event = .assigned key := by
      unfold ApiKeyAuth.assignKey
      split
      · exact fun event hmem => ⟨_, List.mem_singleton.mp hmem⟩
      · exact fun event hmem => (by cases hmem)
    refine ⟨hvalid, fun r a hmem => ?_, fun hmem => ?_, fun hmem => ?_⟩ <;>
      obtain ⟨key, heq⟩ := honly _ hmem <;> cases heq
  | purgeExpiredKeys =>
    have honly : ∀ event ∈ auth.purgeExpiredKeys.2, event = .rotated := by
      unfold ApiKeyAuth.purgeExpiredKeys
      split
      · exact fun event hmem => List.mem_singleton.mp hmem
      · exact fun event hmem => (by cases hmem)
    refine ⟨hvalid, fun r a hmem => ?_, fun hmem => ?_, fun hmem => h.dropped hmem⟩ <;>
      cases honly _ hmem
  | validate request =>
    have honly : ∀ event ∈ (auth.validate request).2, ∃ a, event = .validated request a := by
      unfold ApiKeyAuth.validate
      split
      · exact fun event hmem => ⟨_, List.mem_singleton.mp hmem⟩
      · exact fun event hmem => (by cases hmem)
    refine ⟨hvalid, h.validate_answers hfits, fun hmem => ?_, fun hmem => ?_⟩ <;>
      obtain ⟨a, heq⟩ := honly _ hmem <;> cases heq
  | searchKeys i =>
    have honly : ∀ event ∈ (auth.searchNext i).2, ∃ r a, event = .validated r a := by
      unfold searchNext
      split
      · exact fun event hmem => ⟨_, _, List.mem_singleton.mp hmem⟩
      · exact fun event hmem => (by cases hmem)
    refine ⟨hvalid, h.searchNext_answers, fun hmem => ?_, fun hmem => ?_⟩ <;>
      obtain ⟨r, a, heq⟩ := honly _ hmem <;> cases heq
  | tick duration =>
    exact ⟨hvalid, fun r a hmem => (by cases hmem), fun hmem => (by cases hmem),
      fun hmem => (by cases hmem)⟩

theorem Kept.stepSound_iff (h : Kept history auth) (call : AuthCall) :
    StepSound history auth call ↔ StepFits history auth call := by
  refine ⟨fun hsound => ?_, h.sound⟩
  cases call with
  | enterKey i =>
    intro hlock rotation hget
    by_contra hnot
    obtain ⟨newest, old, hkeys, heq⟩ := h.enterNext_eq hlock hget
    obtain ⟨newest', old', hkeys', -, -, hold, -⟩ := h.list
    have hvalid : Valid (history ++ (auth.enterNext i).2) (auth.enterNext i).1 := hsound.valid
    rw [heq] at hvalid
    -- no key of the list has a deadline that the clock cannot reach
    have hmem := hvalid.held newest rotation.deadline
      (List.mem_append_right _ List.mem_cons_self) (by show auth.clock < _; have := h.clock.2; omega)
    rw [hkeys, List.cons.injEq] at hkeys'
    rcases List.mem_cons.mp hmem with heq | hmem
    · cases (KeyEntry.mk.inj heq).2.2
    rcases List.mem_cons.mp hmem with heq | hmem
    · have := wrap64_le (rotation.now + wrap64 (wrap64 rotation.gracePeriod * 1000000000))
      exact hnot ((KeyEntry.mk.inj heq).2.1 ▸ this)
    · rw [hkeys'.2] at hmem
      exact hnot (hold _ hmem).2.1
  | validate request =>
    rintro ⟨key, hlock⟩
    have hfirst := validateFirst_erased (h.erased hlock) request
    have hevent : (auth.validate request).2 = [.validated request (isExempt request)] := by
      unfold ApiKeyAuth.validate
      rw [hfirst]
    have hiff := hsound.answers request (isExempt request)
      (by show _ ∈ (auth.validate request).2; rw [hevent]; exact List.mem_cons_self)
    cases hexempt : isExempt request with
    | true => exact .inl rfl
    | false =>
      refine .inr fun hpass => ?_
      rw [hexempt] at hiff
      exact Bool.false_ne_true (hiff.mpr hpass)
  | _ => trivial

/-- From a start with a key, every step of a run is sound exactly if every step fits. -/
theorem along_rotates_iff (key : ApiKey) (hne : key ≠ []) (calls : List AuthCall) :
    machine.Along StepSound [.assigned key] (start key) calls ↔
      machine.Along StepFits [.assigned key] (start key) calls :=
  Machine.along_congr (fun _ _ _ hkept hfits => hkept.step hfits)
    (fun _ _ call hkept => hkept.stepSound_iff call) (kept_start hne)

/-- A request with the first key. -/
def firstRequest : HttpRequest :=
  ⟨utf8 "GET".toList, utf8 "/peers".toList, [],
    UMap.assign ∅ (utf8 "Authorization".toList) (utf8 "Bearer k".toList), ∅⟩

/-- The key is replaced for a minute, and the request comes before, behind and after it. -/
def rotatedOnce : List AuthCall :=
  [.validate firstRequest, .rotateKey 60 (some (Vector.replicate 32 0)), .enterKey 0, .eraseKey,
    .assignKey, .purgeExpiredKeys, .tick 5, .validate firstRequest, .searchKeys 0,
    .tick 60000000000, .validate firstRequest, .searchKeys 0]

/-- No request comes while the lock is held. -/
theorem rotatedOnce_rotates :
    machine.Along StepSound [.assigned (utf8 ['k'])] (start (utf8 ['k'])) rotatedOnce := by
  have hidle : ∀ history auth request, auth.locked = none →
      StepFits history auth (.validate request) := by
    rintro history auth request hnone ⟨key, hlocked⟩
    cases hnone.symm.trans hlocked
  refine (along_rotates_iff (utf8 ['k']) (by decide +kernel) rotatedOnce).mpr
    ⟨hidle _ _ _ rfl, trivial, fun _ rotation hrotation => ?_, trivial, trivial, trivial, trivial,
      hidle _ _ _ (by decide +kernel), trivial, trivial, hidle _ _ _ (by decide +kernel), trivial,
      trivial⟩
  refine (?_ : ∀ rotation ∈ _, rotation.deadline ≤ timeMax) rotation
    (List.mem_of_getElem? hrotation)
  decide +kernel

/-- A grace period of 2^34 seconds wraps, so that the old key expires at once. -/
theorem longGrace_not_rotates :
    ¬ ∀ (key : ApiKey), key ≠ [] → ∀ calls : List AuthCall,
      machine.Along StepSound [.assigned key] (start key) calls := by
  intro h
  have hsound := (h [7] (List.cons_ne_nil _ _)
    [.rotateKey (2 ^ 34) (some (Vector.replicate 32 0)), .enterKey 0]).2.1.valid
  have hmem := hsound.held [7] 17179869184000000000
    (List.mem_append_right _ (List.Mem.head [])) (by decide +kernel)
  exact absurd hmem (by decide +kernel)

end ApiKeyAuth

end Alpine
