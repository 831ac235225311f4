import Alpine.RestBridge.ApiKeyAuth
import Alpine.RestBridge.JsonReader

/-!
# Challenge and response

A client enrolls a public key, asks for a challenge, and gets an access token for a signature of its
nonce. The handlers take the lock for short sections: `verifySignature` consumes the challenge in
one and looks for the public key in another, and what is between them is a `Verification`.

The signature is checked by OpenSSL, which a build without TLS does not have; such a build issues no
token. Strings are byte strings.
-/

namespace Alpine

open Lib

structure PendingChallenge where
  nonce : List UInt8
  createdAt : Int
  deriving DecidableEq

structure EnrolledDevice where
  publicKey : List UInt8
  deviceName : List UInt8
  biometricType : List UInt8
  deriving DecidableEq

/-- A call of `verifySignature` whose challenge is consumed. -/
structure Verification where
  challengeNonce : List UInt8
  signature : List UInt8
  publicKey : List UInt8
  deriving DecidableEq

/-- How far OpenSSL gets with a public key and a nonce. -/
inductive Prepared where
  | noBuffer
  | badKey
  | noContext
  /-- `EVP_DigestVerifyInit` or `EVP_DigestVerifyUpdate` fails. -/
  | refused
  | ready
  deriving DecidableEq

/-- What a build with TLS adds. -/
structure TlsBuild where
  prepare : (publicKey nonce : List UInt8) → Prepared
  /-- `EVP_DigestVerifyFinal` on the bytes of a signature. -/
  verifyFinal : (publicKey nonce signature : List UInt8) → Bool
  /-- `validateJwt` at a time, where it is configured. -/
  validateJwt : Option (Int → ApiKey → Bool)

/-- What a handler answers, with the values that its JSON has. -/
inductive AuthReply where
  | badRequest (message : String)
  | tooManyRequests (message : String)
  | serverError (message : String)
  /-- An exception leaves the handler. -/
  | threw
  | enrolled (deviceId : List UInt8)
  | challenge (challengeId nonce : List UInt8)
  | session (accessToken : ApiKey) (expiresIn : Nat)
  deriving DecidableEq

structure AuthHandler where
  pendingChallenges : UMap (List UInt8) PendingChallenge
  enrolledDevices : UMap (List UInt8) EnrolledDevice
  verifications : List Verification

namespace AuthHandler

def CHALLENGE_TTL_SECONDS : Nat := 60

def MAX_PENDING_CHALLENGES : Nat := 10000

def new : AuthHandler := ⟨∅, ∅, []⟩

/-- The random bytes in hexadecimal digits; none if the source fails. -/
def readUrandom {numBytes : Nat} (randomBytes : Option (Vector UInt8 numBytes)) : List UInt8 :=
  match randomBytes with
  | none => []
  | some randomBytes => ApiKeyAuth.hexKey randomBytes.toList

/-- Whole seconds between two times in nanoseconds, as a `ulong`. -/
def elapsedSeconds (now createdAt : Int) : Nat :=
  ((now - createdAt).tdiv 1000000000 % 2 ^ 64).toNat

def enrollDevice (library : JsonLibrary) (handler : AuthHandler) (request : HttpRequest)
    (idBytes : Option (Vector UInt8 16)) : AuthHandler × AuthReply :=
  match JsonReader.new library request.body with
  | none => (handler, .threw)
  | some reader =>
    match reader.getString "publicKey".toList with
    | none => (handler, .badRequest "Missing publicKey")
    | some publicKey =>
      let deviceName := (reader.getString "deviceName".toList).getD []
      let biometricType := (reader.getString "biometricType".toList).getD []
      if publicKey = [] then (handler, .badRequest "publicKey must not be empty")
      else
        let deviceId := readUrandom idBytes
        ({ handler with
            enrolledDevices :=
              handler.enrolledDevices.assign deviceId ⟨publicKey, deviceName, biometricType⟩ },
          .enrolled deviceId)

def evictExpiredChallenges (handler : AuthHandler) (now : Int) : AuthHandler :=
  { handler with
    pendingChallenges := handler.pendingChallenges.keep fun challenge =>
      elapsedSeconds now challenge.createdAt ≤ CHALLENGE_TTL_SECONDS }

def getChallenge (handler : AuthHandler) (now : Int)
    (idBytes : Option (Vector UInt8 16)) (nonceBytes : Option (Vector UInt8 32)) :
    AuthHandler × AuthReply :=
  let handler := handler.evictExpiredChallenges now
  let challengeId := readUrandom idBytes
  let nonce := readUrandom nonceBytes
  if handler.pendingChallenges.keys.length ≥ MAX_PENDING_CHALLENGES then
    (handler, .tooManyRequests "Too many pending challenges")
  else
    ({ handler with
        pendingChallenges := handler.pendingChallenges.assign challengeId ⟨nonce, now⟩ },
      .challenge challengeId nonce)

/-- `verifySignature` up to the end of its first section; without an answer it goes on. -/
def verifySignature (library : JsonLibrary) (handler : AuthHandler) (now : Int)
    (request : HttpRequest) : AuthHandler × Option AuthReply :=
  match JsonReader.new library request.body with
  | none => (handler, some .threw)
  | some reader =>
    match reader.getString "challengeId".toList, reader.getString "signature".toList,
        reader.getString "publicKey".toList with
    | none, _, _ => (handler, some (.badRequest "Missing challengeId"))
    | some _, none, _ => (handler, some (.badRequest "Missing signature"))
    | some _, some _, none => (handler, some (.badRequest "Missing publicKey"))
    | some challengeId, some signature, some publicKey =>
      match handler.pendingChallenges.find challengeId with
      | none => (handler, some (.badRequest "Unknown or expired challenge"))
      | some challenge =>
        let consumed :=
          { handler with pendingChallenges := handler.pendingChallenges.erase challengeId }
        if elapsedSeconds now challenge.createdAt > CHALLENGE_TTL_SECONDS then
          (consumed, some (.badRequest "Challenge expired"))
        else
          ({ consumed with
              verifications := consumed.verifications ++ [⟨challenge.nonce, signature, publicKey⟩] },
            none)

/-! ## The signature -/

def hexValue (c : UInt8) : Option Nat :=
  if 48 ≤ c ∧ c ≤ 57 then some (c.toNat - 48)
  else if 97 ≤ c ∧ c ≤ 102 then some (c.toNat - 87)
  else if 65 ≤ c ∧ c ≤ 70 then some (c.toNat - 55)
  else none

/-- `std::stoi` to the base 16 on at most two characters; `none` is an exception. -/
def stoiHex (s : List UInt8) : Option Int :=
  let s := s.dropWhile fun c => c = 32 || (9 ≤ c && c ≤ 13)
  let (negative, s) :=
    match s with
    | 45 :: s => (true, s)
    | 43 :: s => (false, s)
    | s => (false, s)
  match (s.map hexValue).takeWhile Option.isSome with
  | [] => none
  | digits =>
    let value : Int := digits.foldl (fun n d => n * 16 + (d.getD 0 : Nat)) 0
    some (if negative then -value else value)

/-- The loop over the pairs of digits, each cut to a byte. -/
def decodeHex : List UInt8 → Option (List UInt8)
  | c :: d :: signature => do
    let byteVal ← stoiHex [c, d]
    let sigBytes ← decodeHex signature
    return UInt8.ofNat (byteVal % 256).toNat :: sigBytes
  | _ => some []

/-- `none` if the signature is good. -/
def checkSignature (tls : TlsBuild) (v : Verification) : Option AuthReply :=
  match tls.prepare v.publicKey v.challengeNonce with
  | .noBuffer => some (.serverError "Signature verification failed")
  | .badKey => some (.badRequest "Invalid public key format")
  | .noContext => some (.serverError "Signature verification failed")
  | .refused => some (.badRequest "Signature verification failed")
  | .ready =>
    match decodeHex v.signature with
    | none => some .threw
    | some sigBytes =>
      if tls.verifyFinal v.publicKey v.challengeNonce sigBytes then none
      else some (.badRequest "Signature verification failed")

/-- The rest of `verifySignature`, and the session token. -/
def finishVerify (tls : Option TlsBuild) (handler : AuthHandler) (v : Verification)
    (tokenBytes : Option (Vector UInt8 32)) : AuthReply :=
  if handler.enrolledDevices.entries.all fun device => device.2.publicKey ≠ v.publicKey then
    .badRequest "Device not enrolled"
  else
    match tls with
    | none => .serverError "Signature verification not available (TLS disabled)"
    | some tls =>
      match checkSignature tls v with
      | some reply => reply
      | none => .session (readUrandom tokenBytes) 3600

end AuthHandler

end Alpine
