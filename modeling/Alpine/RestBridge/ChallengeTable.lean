import Alpine.RestBridge.LoginTokens

/-!
# The table of challenges

`getChallenge` takes the lock twice, and looks at the clock before the first time; here each section
is a step of its own. A challenge is good for one verification. What goes wrong
comes from outside: the source of random bytes may fail, which leaves the nonce empty, or repeat an
id, which replaces a pending challenge; and a signature that is not hexadecimal, or a body whose
numbers do not fit, ends the request without an answer. `StepSound` is what a step is to guarantee,
and `StepFits` says when none of this happens.
-/

namespace Alpine

open Lib

namespace AuthHandler

/-- The second section of `getChallenge`. -/
def insertChallenge (handler : AuthHandler) (now : Int) (idBytes : Option (Vector UInt8 16))
    (nonceBytes : Option (Vector UInt8 32)) : AuthHandler × AuthReply :=
  if handler.pendingChallenges.keys.length ≥ MAX_PENDING_CHALLENGES then
    (handler, .tooManyRequests "Too many pending challenges")
  else
    ({ handler with
        pendingChallenges :=
          handler.pendingChallenges.assign (readUrandom idBytes) ⟨readUrandom nonceBytes, now⟩ },
      .challenge (readUrandom idBytes) (readUrandom nonceBytes))

end AuthHandler

/-- Where a call of `getChallenge` is. -/
inductive ChallengeCall where
  /-- It has looked at the clock. -/
  | evicting (now : Int)
  | inserting
  deriving DecidableEq

structure ChallengeTable where
  handler : AuthHandler
  calls : List ChallengeCall
  clock : Int

inductive ChallengeStep where
  | enrollDevice (request : HttpRequest) (idBytes : Option (Vector UInt8 16))
  | getChallenge
  | evict (i : Nat)
  | insert (i : Nat) (idBytes : Option (Vector UInt8 16)) (nonceBytes : Option (Vector UInt8 32))
  | verifySignature (request : HttpRequest)
  | finishVerify (i : Nat) (tokenBytes : Option (Vector UInt8 32))
  | tick (duration : Nat)

inductive ChallengeEvent where
  | replied (reply : AuthReply)
  | created (id : List UInt8) (nonceBytes : Option (Vector UInt8 32)) (challenge : PendingChallenge)
  /-- A request took the challenge at a time; one that had expired leads to nothing. -/
  | consumed (id : List UInt8) (challenge : PendingChallenge) (time : Int)
      (verification : Option Verification)
  | issued (verification : Verification) (accessToken : ApiKey)
  deriving DecidableEq

namespace ChallengeTable

open AuthHandler (readUrandom elapsedSeconds checkSignature decodeHex CHALLENGE_TTL_SECONDS
  MAX_PENDING_CHALLENGES)

variable (library : JsonLibrary) (tls : Option TlsBuild)

def start : ChallengeTable := ⟨.new, [], 0⟩

def evictNext (s : ChallengeTable) (i : Nat) : ChallengeTable :=
  match s.calls[i]? with
  | some (.evicting now) =>
    { s with
      handler := s.handler.evictExpiredChallenges now
      calls := s.calls.set i .inserting }
  | _ => s

def insertNext (s : ChallengeTable) (i : Nat) (idBytes : Option (Vector UInt8 16))
    (nonceBytes : Option (Vector UInt8 32)) : ChallengeTable × List ChallengeEvent :=
  match s.calls[i]? with
  | some .inserting =>
    let (handler, reply) := s.handler.insertChallenge s.clock idBytes nonceBytes
    ({ s with handler, calls := s.calls.eraseIdx i },
      match reply with
      | .challenge id nonce => [.created id nonceBytes ⟨nonce, s.clock⟩, .replied reply]
      | _ => [.replied reply])
  | _ => (s, [])

/-- The challenge that a request takes. -/
def consumption (s : ChallengeTable) (request : HttpRequest) : List ChallengeEvent :=
  match JsonReader.new library request.body with
  | none => []
  | some reader =>
    match reader.getString "challengeId".toList, reader.getString "signature".toList,
        reader.getString "publicKey".toList with
    | some id, some signature, some publicKey =>
      match s.handler.pendingChallenges.find id with
      | none => []
      | some challenge =>
        [.consumed id challenge s.clock
          (if elapsedSeconds s.clock challenge.createdAt > CHALLENGE_TTL_SECONDS then none
            else some ⟨challenge.nonce, signature, publicKey⟩)]
    | _, _, _ => []

def verifySignature (s : ChallengeTable) (request : HttpRequest) :
    ChallengeTable × List ChallengeEvent :=
  let (handler, reply) := s.handler.verifySignature library s.clock request
  ({ s with handler }, s.consumption library request ++ reply.toList.map .replied)

def finishNext (s : ChallengeTable) (i : Nat) (tokenBytes : Option (Vector UInt8 32)) :
    ChallengeTable × List ChallengeEvent :=
  match s.handler.verifications[i]? with
  | none => (s, [])
  | some v =>
    ({ s with
        handler := { s.handler with verifications := s.handler.verifications.eraseIdx i } },
      match s.handler.finishVerify tls v tokenBytes with
      | .session accessToken expiresIn =>
        [.issued v accessToken, .replied (.session accessToken expiresIn)]
      | reply => [.replied reply])

def step (s : ChallengeTable) : ChallengeStep → ChallengeTable × List ChallengeEvent
  | .enrollDevice request idBytes =>
    let (handler, reply) := s.handler.enrollDevice library request idBytes
    ({ s with handler }, [.replied reply])
  | .getChallenge => ({ s with calls := s.calls ++ [.evicting s.clock] }, [])
  | .evict i => (s.evictNext i, [])
  | .insert i idBytes nonceBytes => s.insertNext i idBytes nonceBytes
  | .verifySignature request => s.verifySignature library request
  | .finishVerify i tokenBytes => s.finishNext tls i tokenBytes
  | .tick duration => ({ s with clock := s.clock + duration }, [])

def machine : Machine ChallengeTable ChallengeStep ChallengeEvent := ⟨step library tls⟩

/-! ## What must hold -/

def isCreated (id : List UInt8) (challenge : PendingChallenge) : ChallengeEvent → Bool
  | .created id' _ challenge' => id' = id && challenge' = challenge
  | _ => false

def isConsumed (id : List UInt8) (challenge : PendingChallenge) : ChallengeEvent → Bool
  | .consumed id' challenge' _ _ => id' = id && challenge' = challenge
  | _ => false

/-- A verification goes on with the challenge that it took. -/
def isBegun (v : Verification) : ChallengeEvent → Bool
  | .consumed _ _ _ v' => v' = some v
  | _ => false

def isIssued (v : Verification) : ChallengeEvent → Bool
  | .issued v' _ => v' = v
  | _ => false

def Enrolled (s : ChallengeTable) (v : Verification) : Prop :=
  ∃ device ∈ s.handler.enrolledDevices.entries, device.2.publicKey = v.publicKey

/-- OpenSSL takes the signature. -/
def Signed (v : Verification) : Prop :=
  ∃ build, tls = some build ∧ build.prepare v.publicKey v.challengeNonce = .ready ∧
    ∃ sigBytes, decodeHex v.signature = some sigBytes ∧
      build.verifyFinal v.publicKey v.challengeNonce sigBytes = true

/-- The nonce is that of a challenge that was made here with random bytes and taken in time. -/
def Challenged (history : List ChallengeEvent) (v : Verification) : Prop :=
  ∃ id bytes challenge time, ChallengeEvent.created id (some bytes) challenge ∈ history ∧
    challenge.nonce = readUrandom (some bytes) ∧
    ChallengeEvent.consumed id challenge time (some v) ∈ history ∧
    v.challengeNonce = challenge.nonce ∧ challenge.nonce ≠ [] ∧
    challenge.createdAt ≤ time ∧ elapsedSeconds time challenge.createdAt ≤ CHALLENGE_TTL_SECONDS

structure StepSound (history : List ChallengeEvent) (s : ChallengeTable) (a : ChallengeStep) :
    Prop where
  once : ∀ id challenge time v,
    ChallengeEvent.consumed id challenge time v ∈ (s.step library tls a).2 →
      history.countP (isConsumed id challenge) < history.countP (isCreated id challenge)
  token : ∀ v accessToken, ChallengeEvent.issued v accessToken ∈ (s.step library tls a).2 →
    Challenged history v ∧ s.Enrolled v ∧ Signed tls v ∧
      history.countP (isIssued v) < history.countP (isBegun v)
  limit : (s.step library tls a).1.handler.pendingChallenges.keys.length ≤ MAX_PENDING_CHALLENGES
  /-- A challenge that is made leaves the others as they are. -/
  kept : ∀ id nonceBytes challenge,
    ChallengeEvent.created id nonceBytes challenge ∈ (s.step library tls a).2 →
      ∀ id' challenge', s.handler.pendingChallenges.find id' = some challenge' →
        (s.step library tls a).1.handler.pendingChallenges.find id' = some challenge'
  answered : ChallengeEvent.replied .threw ∉ (s.step library tls a).2

/-- The exact condition. The id that is drawn is not that of another pending challenge, a nonce that
is signed is not empty, the pairs of a signature that comes to be decoded are hexadecimal, and the
body of a request can be read. -/
def StepFits (_ : List ChallengeEvent) (s : ChallengeTable) : ChallengeStep → Prop
  | .enrollDevice request _ => JsonReader.new library request.body ≠ none
  | .verifySignature request => JsonReader.new library request.body ≠ none
  | .insert i idBytes nonceBytes => s.calls[i]? = some .inserting →
      s.handler.pendingChallenges.keys.length < MAX_PENDING_CHALLENGES →
        ∀ challenge, s.handler.pendingChallenges.find (readUrandom idBytes) = some challenge →
          challenge = ⟨readUrandom nonceBytes, s.clock⟩
  | .finishVerify i _ => ∀ v, s.handler.verifications[i]? = some v → s.Enrolled v →
      ∀ build, tls = some build → build.prepare v.publicKey v.challengeNonce = .ready →
        decodeHex v.signature ≠ none ∧ (Signed tls v → v.challengeNonce ≠ [])
  | _ => True

/-! ## What the handlers do -/

variable {tls : Option TlsBuild} {s : ChallengeTable}

theorem enrollDevice_frame (library : JsonLibrary) (handler : AuthHandler) (request : HttpRequest)
    (idBytes : Option (Vector UInt8 16)) :
    (handler.enrollDevice library request idBytes).1.pendingChallenges =
        handler.pendingChallenges ∧
      (handler.enrollDevice library request idBytes).1.verifications = handler.verifications ∧
      ((handler.enrollDevice library request idBytes).2 = .threw ↔
        JsonReader.new library request.body = none) := by
  unfold AuthHandler.enrollDevice
  cases JsonReader.new library request.body with
  | none => exact ⟨rfl, rfl, iff_of_true rfl rfl⟩
  | some reader =>
    dsimp only
    split
    · exact ⟨rfl, rfl, iff_of_false (by rintro ⟨⟩) (by rintro ⟨⟩)⟩
    · split
      · exact ⟨rfl, rfl, iff_of_false (by rintro ⟨⟩) (by rintro ⟨⟩)⟩
      · exact ⟨rfl, rfl, iff_of_false (by rintro ⟨⟩) (by rintro ⟨⟩)⟩

/-- The second section finds no call, no room, or takes the id. -/
theorem insertNext_cases (s : ChallengeTable) (i : Nat) (idBytes : Option (Vector UInt8 16))
    (nonceBytes : Option (Vector UInt8 32)) :
    s.calls[i]? ≠ some .inserting ∧ s.insertNext i idBytes nonceBytes = (s, []) ∨
    MAX_PENDING_CHALLENGES ≤ s.handler.pendingChallenges.keys.length ∧
      s.insertNext i idBytes nonceBytes =
        ({ s with calls := s.calls.eraseIdx i },
          [.replied (.tooManyRequests "Too many pending challenges")]) ∨
    s.calls[i]? = some .inserting ∧
      s.handler.pendingChallenges.keys.length < MAX_PENDING_CHALLENGES ∧
      s.insertNext i idBytes nonceBytes =
        ({ s with
            handler.pendingChallenges :=
              s.handler.pendingChallenges.assign (readUrandom idBytes)
                ⟨readUrandom nonceBytes, s.clock⟩
            calls := s.calls.eraseIdx i },
          [.created (readUrandom idBytes) nonceBytes ⟨readUrandom nonceBytes, s.clock⟩,
            .replied (.challenge (readUrandom idBytes) (readUrandom nonceBytes))]) := by
  unfold insertNext
  split
  · rename_i hcall
    by_cases hroom : s.handler.pendingChallenges.keys.length ≥ MAX_PENDING_CHALLENGES
    · refine .inr (.inl ⟨hroom, ?_⟩)
      unfold AuthHandler.insertChallenge
      rw [if_pos hroom]
    · refine .inr (.inr ⟨hcall, Nat.lt_of_not_le hroom, ?_⟩)
      unfold AuthHandler.insertChallenge
      rw [if_neg hroom]
  · rename_i hcall
    exact .inl ⟨fun heq => hcall heq, rfl⟩

/-- What `verifySignature` does in its section, and what is said of it. -/
theorem verifySignature_cases (library : JsonLibrary) (s : ChallengeTable) (request : HttpRequest) :
    (∃ reply, s.verifySignature library request = (s, [.replied reply]) ∧
      (reply = .threw ↔ JsonReader.new library request.body = none)) ∨
    ∃ id challenge signature publicKey, s.handler.pendingChallenges.find id = some challenge ∧
      JsonReader.new library request.body ≠ none ∧
      if elapsedSeconds s.clock challenge.createdAt > CHALLENGE_TTL_SECONDS then
        s.verifySignature library request =
          ({ s with
              handler.pendingChallenges := s.handler.pendingChallenges.erase id },
            [.consumed id challenge s.clock none, .replied (.badRequest "Challenge expired")])
      else
        s.verifySignature library request =
          ({ s with
              handler.pendingChallenges := s.handler.pendingChallenges.erase id
              handler.verifications :=
                s.handler.verifications ++ [⟨challenge.nonce, signature, publicKey⟩] },
            [.consumed id challenge s.clock (some ⟨challenge.nonce, signature, publicKey⟩)]) := by
  unfold ChallengeTable.verifySignature AuthHandler.verifySignature consumption
  cases hreader : JsonReader.new library request.body with
  | none => exact .inl ⟨.threw, rfl, fun _ => rfl, fun _ => rfl⟩
  | some reader =>
    cases hid : reader.getString "challengeId".toList with
    | none =>
      refine .inl ⟨.badRequest "Missing challengeId", ?_, ?_⟩
      · dsimp only
        rw [hid]
        rfl
      · exact iff_of_false (by rintro ⟨⟩) (by rintro ⟨⟩)
    | some id =>
      cases hsignature : reader.getString "signature".toList with
      | none =>
        refine .inl ⟨.badRequest "Missing signature", ?_, ?_⟩
        · dsimp only
          rw [hid, hsignature]
          rfl
        · exact iff_of_false (by rintro ⟨⟩) (by rintro ⟨⟩)
      | some signature =>
        cases hkey : reader.getString "publicKey".toList with
        | none =>
          refine .inl ⟨.badRequest "Missing publicKey", ?_, ?_⟩
          · dsimp only
            rw [hid, hsignature, hkey]
            rfl
          · exact iff_of_false (by rintro ⟨⟩) (by rintro ⟨⟩)
        | some publicKey =>
          cases hfind : s.handler.pendingChallenges.find id with
          | none =>
            refine .inl ⟨.badRequest "Unknown or expired challenge", ?_, ?_⟩
            · dsimp only
              rw [hid, hsignature, hkey]
              dsimp only
              rw [hfind]
              rfl
            · exact iff_of_false (by rintro ⟨⟩) (by rintro ⟨⟩)
          | some challenge =>
            refine .inr ⟨id, challenge, signature, publicKey, hfind, (by rintro ⟨⟩), ?_⟩
            dsimp only
            rw [hid, hsignature, hkey]
            dsimp only
            rw [hfind]
            by_cases hexpired : elapsedSeconds s.clock challenge.createdAt > CHALLENGE_TTL_SECONDS
            · simp only [if_pos hexpired]
              rfl
            · simp only [if_neg hexpired]
              rfl

theorem checkSignature_eq_none {build : TlsBuild} {v : Verification} :
    checkSignature build v = none ↔ build.prepare v.publicKey v.challengeNonce = .ready ∧
      ∃ sigBytes, decodeHex v.signature = some sigBytes ∧
        build.verifyFinal v.publicKey v.challengeNonce sigBytes = true := by
  unfold AuthHandler.checkSignature
  cases build.prepare v.publicKey v.challengeNonce with
  | ready =>
    dsimp only
    cases decodeHex v.signature with
    | none => simp
    | some sigBytes =>
      dsimp only
      split
      · rename_i hfinal
        exact iff_of_true rfl ⟨rfl, sigBytes, rfl, hfinal⟩
      · rename_i hfinal
        refine iff_of_false (by rintro ⟨⟩) ?_
        rintro ⟨-, _, ⟨⟩, hgood⟩
        exact hfinal hgood
  | _ => exact iff_of_false (by rintro ⟨⟩) (by rintro ⟨⟨⟩, -⟩)

theorem checkSignature_threw {build : TlsBuild} {v : Verification} :
    checkSignature build v = some .threw ↔
      build.prepare v.publicKey v.challengeNonce = .ready ∧ decodeHex v.signature = none := by
  unfold AuthHandler.checkSignature
  cases build.prepare v.publicKey v.challengeNonce with
  | ready =>
    dsimp only
    cases decodeHex v.signature with
    | none => exact iff_of_true rfl ⟨rfl, rfl⟩
    | some sigBytes =>
      dsimp only
      split
      · exact iff_of_false (by rintro ⟨⟩) (by rintro ⟨-, ⟨⟩⟩)
      · exact iff_of_false (by rintro ⟨⟩) (by rintro ⟨-, ⟨⟩⟩)
  | _ => exact iff_of_false (by rintro ⟨⟩) (by rintro ⟨⟨⟩, -⟩)

theorem checkSignature_ne_session {build : TlsBuild} {v : Verification} {token : ApiKey}
    {expiresIn : Nat} : checkSignature build v ≠ some (.session token expiresIn) := by
  unfold AuthHandler.checkSignature
  split
  · rintro ⟨⟩
  · rintro ⟨⟩
  · rintro ⟨⟩
  · rintro ⟨⟩
  · split
    · rintro ⟨⟩
    · split
      · rintro ⟨⟩
      · rintro ⟨⟩

theorem all_not_enrolled {v : Verification} :
    (s.handler.enrolledDevices.entries.all fun device => device.2.publicKey ≠ v.publicKey) = true ↔
      ¬ s.Enrolled v := by
  unfold Enrolled
  rw [List.all_eq_true]
  constructor
  · rintro hall ⟨device, hmem, hkey⟩
    exact of_decide_eq_true (hall device hmem) hkey
  · intro hnot device hmem
    exact decide_eq_true fun hkey => hnot ⟨device, hmem, hkey⟩

/-- A session begins exactly for an enrolled key whose signature OpenSSL takes. -/
theorem finishVerify_session (tls : Option TlsBuild) (s : ChallengeTable) (v : Verification)
    (tokenBytes : Option (Vector UInt8 32)) :
    (∃ token expiresIn, s.handler.finishVerify tls v tokenBytes = .session token expiresIn) ↔
      s.Enrolled v ∧ Signed tls v := by
  unfold AuthHandler.finishVerify Signed
  split
  · rename_i hall
    refine iff_of_false (by rintro ⟨_, _, ⟨⟩⟩) fun h => all_not_enrolled.mp hall h.1
  · rename_i hall
    have henrolled : s.Enrolled v := by
      by_contra hnot
      exact hall (all_not_enrolled.mpr hnot)
    cases tls with
    | none => exact iff_of_false (by rintro ⟨_, _, ⟨⟩⟩) (by rintro ⟨-, _, ⟨⟩, -⟩)
    | some build =>
      dsimp only
      cases hcheck : checkSignature build v with
      | none =>
        refine iff_of_true ⟨readUrandom tokenBytes, 3600, rfl⟩ ⟨henrolled, build, rfl, ?_⟩
        exact checkSignature_eq_none.mp hcheck
      | some reply =>
        refine iff_of_false ?_ ?_
        · rintro ⟨token, expiresIn, heq⟩
          exact checkSignature_ne_session (hcheck.trans (congrArg some heq))
        · rintro ⟨-, _, ⟨⟩, hgood⟩
          rw [checkSignature_eq_none.mpr hgood] at hcheck
          cases hcheck

theorem finishVerify_threw (tls : Option TlsBuild) (s : ChallengeTable) (v : Verification)
    (tokenBytes : Option (Vector UInt8 32)) :
    s.handler.finishVerify tls v tokenBytes = .threw ↔
      s.Enrolled v ∧ ∃ build, tls = some build ∧
        build.prepare v.publicKey v.challengeNonce = .ready ∧ decodeHex v.signature = none := by
  unfold AuthHandler.finishVerify
  split
  · rename_i hall
    refine iff_of_false (by rintro ⟨⟩) fun h => all_not_enrolled.mp hall h.1
  · rename_i hall
    have henrolled : s.Enrolled v := by
      by_contra hnot
      exact hall (all_not_enrolled.mpr hnot)
    cases tls with
    | none => exact iff_of_false (by rintro ⟨⟩) (by rintro ⟨-, _, ⟨⟩, -⟩)
    | some build =>
      dsimp only
      cases hcheck : checkSignature build v with
      | none =>
        refine iff_of_false (by rintro ⟨⟩) ?_
        rintro ⟨-, _, ⟨⟩, hbad⟩
        rw [checkSignature_threw.mpr hbad] at hcheck
        cases hcheck
      | some reply =>
        constructor
        · rintro rfl
          exact ⟨henrolled, build, rfl, checkSignature_threw.mp hcheck⟩
        · rintro ⟨-, _, ⟨⟩, hbad⟩
          rw [checkSignature_threw.mpr hbad] at hcheck
          exact (Option.some.inj hcheck).symm

/-- A verification ends with a token, or with another answer, or not at all. -/
theorem finishNext_cases (tls : Option TlsBuild) (s : ChallengeTable) (i : Nat)
    (tokenBytes : Option (Vector UInt8 32)) :
    (s.handler.verifications[i]? = none ∧ s.finishNext tls i tokenBytes = (s, [])) ∨
    ∃ v reply events, s.handler.verifications[i]? = some v ∧
      s.finishNext tls i tokenBytes =
        ({ s with handler.verifications := s.handler.verifications.eraseIdx i },
          events ++ [.replied reply]) ∧
      (reply = .threw ↔ s.Enrolled v ∧ ∃ build, tls = some build ∧
        build.prepare v.publicKey v.challengeNonce = .ready ∧ decodeHex v.signature = none) ∧
      ((∃ token, events = [.issued v token] ∧ s.Enrolled v ∧ Signed tls v) ∨
        (events = [] ∧ ¬ (s.Enrolled v ∧ Signed tls v))) := by
  unfold finishNext
  cases hv : s.handler.verifications[i]? with
  | none => exact .inl ⟨rfl, rfl⟩
  | some v =>
    dsimp only
    have hsession := finishVerify_session tls s v tokenBytes
    have hthrew := finishVerify_threw tls s v tokenBytes
    generalize s.handler.finishVerify tls v tokenBytes = reply at hsession hthrew
    cases reply with
    | session token expiresIn =>
      exact .inr ⟨v, .session token expiresIn, [.issued v token], rfl, rfl, hthrew,
        .inl ⟨token, rfl, hsession.mp ⟨token, expiresIn, rfl⟩⟩⟩
    | _ =>
      refine .inr ⟨v, _, [], rfl, rfl, hthrew, .inr ⟨rfl, fun hgood => ?_⟩⟩
      obtain ⟨_, _, heq⟩ := hsession.mpr hgood
      cases heq

end ChallengeTable

end Alpine
