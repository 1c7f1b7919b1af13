import TalkSphere.Api

/-! The capabilities a parent injects. An adapter with interior state is a type
whose values are that state; an operation the source gives a mutable receiver
also returns the state it leaves. -/

namespace TalkSphere

abbrev Bytes32 := Vector UInt8 32

structure EphemeralKey (Secret : Type) where
  publicKey : Bytes32
  privateKey : Secret

class Cryptography (γ : Type) where
  EphemeralSecret : Type
  SharedSecret : Type
  PseudorandomKey : Type
  IntegrityKey : Type
  randomNonce : γ → Except DependencyError Bytes32 × γ
  ephemeralKey : γ → Except DependencyError (EphemeralKey EphemeralSecret) × γ
  sha256 : γ → List UInt8 → Except DependencyError Bytes32
  verifySignature : γ → Bytes32 → List UInt8 → Vector UInt8 64 → Except DependencyError Unit
  agree : γ → EphemeralSecret → Bytes32 → Except DependencyError SharedSecret × γ
  extract : γ → Bytes32 → SharedSecret → Except DependencyError PseudorandomKey × γ
  expandKey : γ → PseudorandomKey → List UInt8 → Except DependencyError IntegrityKey × γ
  expandNoncePrefix : γ → PseudorandomKey → List UInt8 →
    Except DependencyError (Vector UInt8 16)
  tag : γ → IntegrityKey → List UInt8 → List UInt8 → Except DependencyError (Vector UInt8 16)
  verifyTag : γ → IntegrityKey → List UInt8 → List UInt8 → Vector UInt8 16 →
    Except DependencyError Unit

structure PublicIdentity where
  id : IdentityId
  signingPublicKey : Bytes32
  deriving DecidableEq, Repr

structure AuthenticationMessage where
  bytes : List UInt8
  deriving DecidableEq, Repr

class Identity (ι : Type) where
  publicIdentity : ι → Except DependencyError PublicIdentity
  identify : ι → Bytes32 → Except DependencyError IdentityId
  signAuthentication : ι → AuthenticationMessage →
    Except DependencyError (Vector UInt8 64) × ι

/-- Computable cryptography for concrete runs. A secret is its own public key,
agreement adds bytewise, and the answers to the two verifications are data. -/
structure MockCrypto where
  entropy : Bytes32
  accepts : Bytes32 → List UInt8 → Vector UInt8 64 → Bool := fun _ _ _ => true
  acceptsTag : List UInt8 → List UInt8 → List UInt8 → Vector UInt8 16 → Bool := fun _ _ _ _ => true

def MockCrypto.verdict (accepted : Bool) : Except DependencyError Unit :=
  if accepted then .ok () else .error .verificationFailed

@[simp] theorem MockCrypto.verdict_ok {accepted : Bool} :
    MockCrypto.verdict accepted = .ok () ↔ accepted = true := by
  cases accepted <;> simp [verdict]

instance : Cryptography MockCrypto where
  EphemeralSecret := Bytes32
  SharedSecret := Bytes32
  PseudorandomKey := Bytes32
  IntegrityKey := List UInt8
  randomNonce c := (.ok c.entropy, c)
  ephemeralKey c := (.ok ⟨c.entropy, c.entropy⟩, c)
  sha256 _ _ := .ok (.replicate 32 0)
  verifySignature c key message signature := MockCrypto.verdict (c.accepts key message signature)
  agree c secret remote := (.ok (Vector.zipWith (· + ·) secret remote), c)
  extract c _ shared := (.ok shared, c)
  expandKey c prk info := (.ok (prk.toList ++ info), c)
  expandNoncePrefix _ _ _ := .ok (.replicate 16 0)
  tag _ _ _ _ := .ok (.replicate 16 0)
  verifyTag c key nonce data tag := MockCrypto.verdict (c.acceptsTag key nonce data tag)

structure MockIdentity where
  key : Bytes32

instance : Identity MockIdentity where
  publicIdentity i := .ok ⟨⟨i.key⟩, i.key⟩
  identify _ key := .ok ⟨key⟩
  signAuthentication i _ := (.ok (.replicate 64 0), i)

end TalkSphere
