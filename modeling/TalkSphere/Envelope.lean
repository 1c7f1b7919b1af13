import TalkSphere.HandshakePayload
import TalkSphere.Outcome

/-! Generic identity envelopes: a header of 132 bytes, and a body that is sealed for one
recipient with that header as its associated data. Memory is taken to suffice. -/

namespace TalkSphere.Envelope

open Outcome (bind_ok)

inductive CryptoError
  | invalidInput
  | authenticationFailed
  | accessDenied
  | unavailable
  | resourceLimit
deriving DecidableEq, Repr

structure ResourceLimits where
  maximumPlaintextBytes : Nat
  maximumObjectBytes : Nat
  plaintext_pos : 0 < maximumPlaintextBytes
  object_min : 148 ≤ maximumObjectBytes

def ResourceLimits.new (maximumPlaintextBytes maximumObjectBytes : Nat) :
    Except CryptoError ResourceLimits :=
  if h : maximumPlaintextBytes = 0 ∨ maximumObjectBytes < 148 then .error .invalidInput
  else .ok ⟨maximumPlaintextBytes, maximumObjectBytes, by omega, by omega⟩

/-! Headers. -/

def headerBytes : Nat := 132
def contextBytes : Nat := 124

structure Header where
  recipientId : Bytes32
  recipientKey : Bytes32
  ephemeralKey : Bytes32
  nonce : Vector UInt8 24
  sealedLength : UInt64
deriving DecidableEq

namespace Header

/-- The suite, the two keys of the recipient, the ephemeral key and the nonce. -/
def fields (h : Header) : List UInt8 :=
  [1, 1, 1, 1] ++ h.recipientId.toList ++ h.recipientKey.toList ++ h.ephemeralKey.toList ++
    h.nonce.toList

def encode (h : Header) : Except CryptoError (List UInt8) :=
  if h.sealedLength.toNat < 16 then .error .invalidInput
  else .ok (h.fields ++ BigEndian.encode 8 h.sealedLength.toNat)

def decode (bytes : List UInt8) : Except CryptoError Header :=
  if bytes.length ≠ headerBytes ∨ bytes.take 4 ≠ [1, 1, 1, 1] then .error .invalidInput
  else
    let sealedLength := UInt64.ofNat (BigEndian.decode (bytesAt bytes 124 8).toList)
    if sealedLength.toNat < 16 then .error .invalidInput
    else .ok ⟨bytesAt bytes 4 32, bytesAt bytes 36 32, bytesAt bytes 68 32, bytesAt bytes 100 24,
      sealedLength⟩

end Header

/-! Lengths. -/

def validateLengths (sealedLength : UInt64) (limits : ResourceLimits) : Except CryptoError Nat :=
  if sealedLength.toNat < 16 then .error .invalidInput
  else if 2 ^ 64 ≤ sealedLength.toNat + headerBytes then .error .resourceLimit
  else
    let total := sealedLength.toNat + headerBytes
    let plaintext := sealedLength.toNat - 16
    if usizeMax < total ∨ usizeMax < plaintext then .error .resourceLimit
    else if total > limits.maximumObjectBytes ∨ plaintext > limits.maximumPlaintextBytes then
      .error .resourceLimit
    else .ok total

def objectLength (header : Header) (limits : ResourceLimits) : Except CryptoError Nat :=
  validateLengths header.sealedLength limits

def lengthsForPlaintext (plaintextLength : UInt64) (limits : ResourceLimits) :
    Except CryptoError (UInt64 × Nat) := do
  if 2 ^ 64 ≤ plaintextLength.toNat + 16 then .error .resourceLimit
  else
    let total ← validateLengths (plaintextLength + 16) limits
    .ok (plaintextLength + 16, total)

structure ParsedObject where
  header : Header
  encodedHeader : List UInt8
  sealedBody : List UInt8

def parse (bytes : List UInt8) (limits : ResourceLimits) : Except CryptoError ParsedObject := do
  if bytes.length < headerBytes then .error .invalidInput
  else if bytes.length > limits.maximumObjectBytes then .error .resourceLimit
  else
    let header ← Header.decode (bytes.take headerBytes)
    let length ← objectLength header limits
    if bytes.length ≠ length then .error .invalidInput
    else .ok ⟨header, bytes.take headerBytes, bytes.drop headerBytes⟩

/-! Primitives. -/

/-- The algorithms of the suite, which other libraries implement. -/
structure Suite where
  sha256 : List UInt8 → Bytes32
  /-- A canonical point that is not of small order. -/
  checkPoint : Bytes32 → Except CryptoError Unit
  verifyStrict : Bytes32 → List UInt8 → Vector UInt8 64 → Except CryptoError Unit
  publicKey : Bytes32 → Bytes32
  diffieHellman : Bytes32 → Bytes32 → Bytes32
  extract : Bytes32 → Bytes32 → Bytes32
  expand : Bytes32 → List UInt8 → Bytes32
  encrypt : Bytes32 → Vector UInt8 24 → List UInt8 → List UInt8 →
    Option (List UInt8 × Vector UInt8 16)
  decrypt : Bytes32 → Vector UInt8 24 → List UInt8 → List UInt8 → Vector UInt8 16 →
    Option (List UInt8)
  /-- Encryption works in place. -/
  encrypt_length : ∀ {key nonce associated plaintext body tag},
    encrypt key nonce associated plaintext = some (body, tag) → body.length = plaintext.length

namespace Suite

variable (suite : Suite)

def hash (bytes : List UInt8) (maximumBytes : Nat) : Except CryptoError Bytes32 :=
  if bytes.length > maximumBytes then .error .resourceLimit else .ok (suite.sha256 bytes)

def verify (key : Bytes32) (message : List UInt8) (signature : Vector UInt8 64)
    (maximumBytes : Nat) : Except CryptoError Unit := do
  if message.length > maximumBytes then .error .resourceLimit
  else
    suite.checkPoint key
    suite.checkPoint (bytesAt signature.toList 0 32)
    suite.verifyStrict key message signature

/-- An agreement whose result is zero had a contribution from one side only. -/
def agree (key remote : Bytes32) : Except CryptoError Bytes32 :=
  let shared := suite.diffieHellman key remote
  if shared = .replicate 32 0 then .error .authenticationFailed else .ok shared

def sealBody (key : Bytes32) (nonce : Vector UInt8 24) (plaintext associated : List UInt8)
    (maximumBytes : Nat) : Except CryptoError (List UInt8) :=
  match checkedAdd plaintext.length 16 with
  | none => .error .resourceLimit
  | some total =>
    if total > maximumBytes ∨ associated.length > maximumBytes then .error .resourceLimit
    else match suite.encrypt key nonce associated plaintext with
      | none => .error .invalidInput
      | some (body, tag) => .ok (body ++ tag.toList)

def openBody (key : Bytes32) (nonce : Vector UInt8 24) (sealedBody associated : List UInt8)
    (maximumBytes : Nat) : Except CryptoError (List UInt8) :=
  if sealedBody.length > maximumBytes ∨ associated.length > maximumBytes then
    .error .resourceLimit
  else if sealedBody.length < 16 then .error .invalidInput
  else
    let length := sealedBody.length - 16
    match suite.decrypt key nonce associated (sealedBody.take length)
        (bytesAt sealedBody length 16) with
    | none => .error .authenticationFailed
    | some plaintext => .ok plaintext

/-! Recipients. -/

end Suite

structure RecipientCredential where
  identityId : Bytes32
  signingPublicKey : Bytes32
  encryptionPublicKey : Bytes32
  bindingSignature : Vector UInt8 64

structure ValidatedRecipient where
  identityId : Bytes32
  encryptionPublicKey : Bytes32

def bindingBytes (publicKey : Bytes32) : List UInt8 :=
  utf8 "CR2SE-ENCRYPTION-KEY-V1" ++ publicKey.toList

def saltLabel : List UInt8 := utf8 "CR2SE-IDENTITY-ENCRYPTION-SALT-V1" ++ [0]
def keyLabel : List UInt8 := utf8 "CR2SE-IDENTITY-ENCRYPTION-KEY-V1" ++ [0]

/-- The part of the header that keys are derived from. -/
def context (header : Header) : Except CryptoError (List UInt8) := do
  .ok ((← header.encode).take contextBytes)

namespace Suite

variable (suite : Suite)

def identityId (publicKey : Bytes32) : Except CryptoError Bytes32 :=
  suite.hash ([1, 1] ++ publicKey.toList) 34

def validate (credential : RecipientCredential) : Except CryptoError ValidatedRecipient := do
  let id ← suite.identityId credential.signingPublicKey
  if id ≠ credential.identityId then .error .authenticationFailed
  else
    let binding := bindingBytes credential.encryptionPublicKey
    suite.verify credential.signingPublicKey binding credential.bindingSignature binding.length
    .ok ⟨credential.identityId, credential.encryptionPublicKey⟩

/-! Keys. -/

def salt (context : List UInt8) : Except CryptoError Bytes32 :=
  if context.take 4 ≠ [1, 1, 1, 1] then .error .invalidInput
  else suite.hash (saltLabel ++ context) (saltLabel ++ context).length

def derive (shared : Bytes32) (context : List UInt8) : Except CryptoError Bytes32 := do
  let prk := suite.extract (← suite.salt context) shared
  .ok (suite.expand prk (keyLabel ++ context))

end Suite

/-- Secure randomness with a state of its own. -/
structure Entropy (σ : Type) where
  fill : σ → (n : Nat) → Except CryptoError (Vector UInt8 n × σ)

def randomBytes {σ : Type} (entropy : Entropy σ) (n : Nat) (s : σ) :
    Except CryptoError (Vector UInt8 n × σ) :=
  if n > 4096 then .error .resourceLimit else entropy.fill s n

/-! Encryption and decryption. -/

structure EncryptRequest where
  plaintext : List UInt8
  recipient : RecipientCredential
  limits : ResourceLimits

structure DecryptRequest where
  object : List UInt8
  identityId : Bytes32
  encryptionPublicKey : Bytes32
  privateKey : Bytes32
  limits : ResourceLimits

/-- One call that sealed a plaintext, with its result. -/
structure SealedUnit where
  key : Bytes32
  nonce : Vector UInt8 24
  associated : List UInt8
  plaintext : List UInt8
  body : List UInt8

/-- The bytes that travel. -/
def SealedUnit.object (u : SealedUnit) : List UInt8 := u.associated ++ u.body

/-- Everything of an encryption but the joining of its two parts. -/
def sealObject {σ : Type} (suite : Suite) (entropy : Entropy σ) (request : EncryptRequest) (s : σ) :
    Except CryptoError (SealedUnit × σ) := do
  let recipient ← suite.validate request.recipient
  if usizeMax < request.plaintext.length then .error .resourceLimit
  else
    let (sealedLength, _) ← lengthsForPlaintext (UInt64.ofNat request.plaintext.length) request.limits
    let (ephemeral, s) ← randomBytes entropy 32 s
    let (nonce, s) ← randomBytes entropy 24 s
    let header : Header := ⟨recipient.identityId, recipient.encryptionPublicKey,
      suite.publicKey ephemeral, nonce, sealedLength⟩
    let shared ← suite.agree ephemeral header.recipientKey
    let key ← suite.derive shared (← context header)
    let encodedHeader ← header.encode
    let body ← suite.sealBody key header.nonce request.plaintext encodedHeader
      request.limits.maximumObjectBytes
    .ok (⟨key, header.nonce, encodedHeader, request.plaintext, body⟩, s)

def encrypt {σ : Type} (suite : Suite) (entropy : Entropy σ) (request : EncryptRequest) (s : σ) :
    Except CryptoError (List UInt8 × σ) := do
  let (u, s) ← sealObject suite entropy request s
  .ok (u.object, s)

def decrypt (suite : Suite) (request : DecryptRequest) : Except CryptoError (List UInt8) := do
  let parsed ← parse request.object request.limits
  if parsed.header.recipientId ≠ request.identityId ∨
      parsed.header.recipientKey ≠ request.encryptionPublicKey then .error .authenticationFailed
  else
    let shared ← suite.agree request.privateKey parsed.header.ephemeralKey
    let key ← suite.derive shared (← context parsed.header)
    suite.openBody key parsed.header.nonce parsed.sealedBody parsed.encodedHeader
      request.limits.maximumObjectBytes

end TalkSphere.Envelope
