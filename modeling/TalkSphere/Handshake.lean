import TalkSphere.Framing
import TalkSphere.HandshakePayload

/-! HELLO/AUTH sequencing for one connection and the keys it derives. A peer frame
is rejected, which ends the handshake, or it moves the handshake in one of two ways:
the peer's HELLO is answered by a signature over both, or the peer's signature is
verified and the keys are derived. -/

namespace TalkSphere

open Cryptography (EphemeralSecret IntegrityKey)

structure DirectionKeys (K : Type) where
  key : K
  noncePrefix : Vector UInt8 16

structure SessionKeys (K : Type) where
  send : DirectionKeys K
  receive : DirectionKeys K

/-- The initiator sends with the first of two directions, the acceptor with the second. -/
def SessionKeys.orient {K : Type} (role : ConnectionRole) (i2a a2i : DirectionKeys K) :
    SessionKeys K :=
  match role with
  | .initiator => ⟨i2a, a2i⟩
  | .acceptor => ⟨a2i, i2a⟩

def saltInput (t : Transcript) : List UInt8 := utf8 "CR2SE-NETWORK-KEYS-V1" ++ [0] ++ t.bytes

def deriveKeys {γ : Type} [Cryptography γ] (role : ConnectionRole) (secret : EphemeralSecret γ)
    (remote : Bytes32) (t : Transcript) (crypto : γ) :
    Except DependencyError (SessionKeys (IntegrityKey γ)) × γ :=
  match Cryptography.agree crypto secret remote with
  | (.error e, crypto) => (.error e, crypto)
  | (.ok shared, crypto) =>
    match Cryptography.sha256 crypto (saltInput t) with
    | .error e => (.error e, crypto)
    | .ok salt =>
      match Cryptography.extract crypto salt shared with
      | (.error e, crypto) => (.error e, crypto)
      | (.ok prk, crypto) =>
        match Cryptography.expandKey crypto prk (utf8 "CR2SE-NETWORK-V1-I2A-KEY") with
        | (.error e, crypto) => (.error e, crypto)
        | (.ok i2aKey, crypto) =>
          match Cryptography.expandKey crypto prk (utf8 "CR2SE-NETWORK-V1-A2I-KEY") with
          | (.error e, crypto) => (.error e, crypto)
          | (.ok a2iKey, crypto) =>
            match Cryptography.expandNoncePrefix crypto prk
                (utf8 "CR2SE-NETWORK-V1-I2A-NONCE") with
            | .error e => (.error e, crypto)
            | .ok i2aPrefix =>
              match Cryptography.expandNoncePrefix crypto prk
                  (utf8 "CR2SE-NETWORK-V1-A2I-NONCE") with
              | .error e => (.error e, crypto)
              | .ok a2iPrefix =>
                (.ok (.orient role ⟨i2aKey, i2aPrefix⟩ ⟨a2iKey, a2iPrefix⟩), crypto)

/-- The nonce of one frame: the direction's prefix, then the implicit sequence number. -/
def nonce (noncePrefix : Vector UInt8 16) (sequence : UInt64) : List UInt8 :=
  noncePrefix.toList ++ BigEndian.encode 8 sequence.toNat

theorem nonce_inj {p q : Vector UInt8 16} {m n : UInt64} (h : nonce p m = nonce q n) :
    p = q ∧ m = n := by
  obtain ⟨hp, hn⟩ := List.append_inj h (by simp)
  exact ⟨Vector.toList_inj.1 hp,
    UInt64.toNat_inj.1 (BigEndian.encode_inj m.toNat_lt n.toNat_lt hn)⟩

inductive HandshakeError
  | order
  | peer (code : ErrorCode)
  | payload (e : HandshakePayloadError)
  | unexpectedIdentity
  | dependency (e : DependencyError)
  | framing (e : FramingError)
  deriving DecidableEq, Repr

/-- The configured contact is another identity. -/
def ExpectedPeer.excludes : ExpectedPeer → IdentityId → Bool
  | .known expected, id => expected ≠ id
  | .unpinned, _ => false

structure Established (K : Type) where
  role : ConnectionRole
  localIdentity : IdentityId
  peerIdentity : IdentityId
  keys : SessionKeys K

structure Handshake (γ : Type) [Cryptography γ] where
  role : ConnectionRole
  expected : ExpectedPeer
  localIdentity : IdentityId
  localHello : Hello
  remote : Option (Hello × IdentityId) := none
  secret : Option (EphemeralSecret γ)
  keys : Option (SessionKeys (IntegrityKey γ)) := none
  helloSent : Bool := false
  authSent : Bool := false
  peerVerified : Bool := false
  closed : Bool := false

def rawFrame (kind : FrameType) (payload : List UInt8) : Except HandshakeError WireFrame :=
  match FrameHeader.new kind 0 (UInt32.ofNat payload.length) with
  | .error e => .error (.framing (.header e))
  | .ok header => (WireFrame.new header payload none).mapError .framing

namespace Handshake

variable {γ ι : Type} [Cryptography γ] [Identity ι]

def begin (role : ConnectionRole) (expected : ExpectedPeer) (identity : ι) (crypto : γ) :
    Except HandshakeError (Handshake γ × WireFrame) × γ :=
  match Identity.publicIdentity identity with
  | .error e => (.error (.dependency e), crypto)
  | .ok pub =>
    match Cryptography.ephemeralKey crypto with
    | (.error e, crypto) => (.error (.dependency e), crypto)
    | (.ok ephemeral, crypto) =>
      match Cryptography.randomNonce crypto with
      | (.error e, crypto) => (.error (.dependency e), crypto)
      | (.ok nonce, crypto) =>
        let hello : Hello := ⟨pub.signingPublicKey, ephemeral.publicKey, nonce⟩
        match rawFrame .hello hello.encode with
        | .error e => (.error e, crypto)
        | .ok frame =>
          (.ok ({ role, expected, localIdentity := pub.id, localHello := hello,
                  secret := some ephemeral.privateKey }, frame), crypto)

def close (h : Handshake γ) : Handshake γ :=
  { h with closed := true, secret := none, keys := none }

/-- A completely written HELLO or AUTH. -/
def sent (h : Handshake γ) (kind : FrameType) : Except HandshakeError Unit × Handshake γ :=
  if kind = .hello ∧ !h.closed ∧ !h.helloSent then (.ok (), { h with helloSent := true })
  else if kind = .auth ∧ !h.closed ∧ h.helloSent ∧ !h.authSent ∧ h.remote.isSome then
    (.ok (), { h with authSent := true })
  else (.error .order, h.close)

def sendProtection (h : Handshake γ) : FrameProtection :=
  if h.authSent then .tagged else .untagged

def receiveProtection (h : Handshake γ) : FrameProtection :=
  if h.peerVerified then .tagged else .untagged

def isAuthenticated (h : Handshake γ) : Bool := !h.closed && h.authSent && h.peerVerified

def takeEstablished (h : Handshake γ) :
    Option (Established (IntegrityKey γ)) × Handshake γ :=
  if h.isAuthenticated then
    match h.remote with
    | none => (none, h)
    | some (_, peerIdentity) =>
      match h.keys with
      | none => (none, h)
      | some keys => (some ⟨h.role, h.localIdentity, peerIdentity, keys⟩, { h with keys := none })
  else (none, h)

/-- Transcript order is by role, whichever HELLO arrived first. -/
def transcript (h : Handshake γ) (remote : Hello) : Transcript :=
  match h.role with
  | .initiator => .new h.localHello remote
  | .acceptor => .new remote h.localHello

abbrev Result (γ ι : Type) [Cryptography γ] :=
  Except HandshakeError (Option WireFrame) × Handshake γ × ι × γ

def processHello (h : Handshake γ) (payload : List UInt8) (identity : ι) (crypto : γ) :
    Result γ ι :=
  match Hello.decode payload with
  | .error e => (.error (.payload e), h, identity, crypto)
  | .ok remote =>
    match Identity.identify identity remote.identityPublicKey with
    | .error e => (.error (.dependency e), h, identity, crypto)
    | .ok id =>
      if h.expected.excludes id then
        (.error .unexpectedIdentity, h, identity, crypto)
      else match (h.transcript remote).sign h.role identity with
        | (.error e, identity) => (.error (.dependency e), h, identity, crypto)
        | (.ok auth, identity) =>
          let h := { h with remote := some (remote, id) }
          match rawFrame .auth auth.encode with
          | .error e => (.error e, h, identity, crypto)
          | .ok frame => (.ok (some frame), h, identity, crypto)

def processAuth (h : Handshake γ) (remote : Hello) (payload : List UInt8) (identity : ι)
    (crypto : γ) : Result γ ι :=
  match Auth.decode payload with
  | .error e => (.error (.payload e), h, identity, crypto)
  | .ok auth =>
    match (h.transcript remote).verify h.role.opposite remote.identityPublicKey auth crypto with
    | .error e => (.error (.dependency e), h, identity, crypto)
    | .ok () =>
      match h.secret with
      | none => (.error .order, h, identity, crypto)
      | some secret =>
        let h := { h with secret := none }
        match deriveKeys h.role secret remote.ephemeralPublicKey (h.transcript remote) crypto with
        | (.error e, crypto) => (.error (.dependency e), h, identity, crypto)
        | (.ok keys, crypto) =>
          (.ok none, { h with keys := some keys, peerVerified := true }, identity, crypto)

def process (h : Handshake γ) (frame : WireFrame) (identity : ι) (crypto : γ) : Result γ ι :=
  if h.closed ∨ h.peerVerified ∨ frame.header.streamId ≠ 0 ∨ frame.tag.isSome then
    (.error .order, h, identity, crypto)
  else match frame.header.frameType, h.remote with
    | .error, _ =>
      match ErrorPayload.decode frame.payload with
      | .error _ => (.error .order, h, identity, crypto)
      | .ok error => (.error (.peer error.code), h, identity, crypto)
    | .hello, none => h.processHello frame.payload identity crypto
    | .auth, some (remote, _) => h.processAuth remote frame.payload identity crypto
    | _, _ => (.error .order, h, identity, crypto)

def receive (h : Handshake γ) (frame : WireFrame) (identity : ι) (crypto : γ) : Result γ ι :=
  match h.process frame identity crypto with
  | (.error e, h, identity, crypto) => (.error e, h.close, identity, crypto)
  | (.ok out, h, identity, crypto) => (.ok out, h, identity, crypto)

end Handshake

theorem rawFrame_eq (kind : FrameType) (payload : List UInt8) (hk : kind.validStreamId 0 = true)
    (hl : payload.length ≤ maxPayloadBytes) :
    ∃ frame, rawFrame kind payload = .ok frame ∧ frame.reservation = none ∧
      frame.header.frameType = kind ∧ frame.header.streamId = 0 ∧ frame.payload = payload ∧
      frame.tag = none := by
  have hn : (UInt32.ofNat payload.length).toNat = payload.length := by
    simp only [UInt32.toNat_ofNat']
    exact Nat.mod_eq_of_lt (by simp only [maxPayloadBytes] at hl; omega)
  simp only [rawFrame, FrameHeader.new, hn, hl, hk, dif_pos, WireFrame.new]
  exact ⟨_, rfl, rfl, rfl, rfl, rfl, rfl⟩

namespace Handshake

variable {γ ι : Type} [Cryptography γ] [Identity ι]

/-- What one received frame does, with the answers of the ports it rests on. -/
inductive Received (h : Handshake γ) (frame : WireFrame) (identity : ι) (crypto : γ) :
    Result γ ι → Prop
  | rejected {e : HandshakeError} {identity' : ι} {crypto' : γ}
      (unsigned : identity' = identity ∨
        ∃ m e, Identity.signAuthentication identity m = (.error e, identity')) :
      Received h frame identity crypto (.error e, h.close, identity', crypto')
  | hello {remote : Hello} {id : IdentityId} {auth : Auth} {identity' : ι} {answer : WireFrame}
      (live : h.closed = false) (unverified : h.peerVerified = false) (first : h.remote = none)
      (kind : frame.header.frameType = .hello)
      (identified : Identity.identify identity remote.identityPublicKey = .ok id)
      (pinned : h.expected.excludes id = false)
      (signed : Identity.signAuthentication identity
        ((h.transcript remote).authentication h.role) = (.ok auth.signature, identity'))
      (answer_eq : rawFrame .auth auth.encode = .ok answer)
      (decoded : Hello.decode frame.payload = .ok remote) :
      Received h frame identity crypto
        (.ok (some answer), { h with remote := some (remote, id) }, identity', crypto)
  | auth {remote : Hello} {id : IdentityId} {auth : Auth} {secret : EphemeralSecret γ}
      {keys : SessionKeys (IntegrityKey γ)} {crypto' : γ}
      (live : h.closed = false) (unverified : h.peerVerified = false)
      (known : h.remote = some (remote, id)) (kind : frame.header.frameType = .auth)
      (decoded : Auth.decode frame.payload = .ok auth)
      (verified : Cryptography.verifySignature crypto remote.identityPublicKey
        ((h.transcript remote).authentication h.role.opposite).bytes auth.signature = .ok ())
      (held : h.secret = some secret)
      (derived : deriveKeys h.role secret remote.ephemeralPublicKey (h.transcript remote) crypto =
        (.ok keys, crypto')) :
      Received h frame identity crypto
        (.ok none, { h with secret := none, keys := some keys, peerVerified := true }, identity,
          crypto')

theorem processHello_received {h : Handshake γ} {frame : WireFrame} {identity : ι} {crypto : γ}
    (hc : h.closed = false) (hv : h.peerVerified = false) (hr : h.remote = none)
    (hk : frame.header.frameType = .hello)
    (hp : h.process frame identity crypto = h.processHello frame.payload identity crypto) :
    Received h frame identity crypto (h.receive frame identity crypto) := by
  simp only [receive, hp, processHello]
  cases hd : Hello.decode frame.payload with
  | error e => exact .rejected (.inl rfl)
  | ok remote =>
    simp only
    cases hi : Identity.identify identity remote.identityPublicKey with
    | error e => exact .rejected (.inl rfl)
    | ok id =>
      simp only
      by_cases hx : h.expected.excludes id = true
      · rw [if_pos hx]
        exact .rejected (.inl rfl)
      · rw [if_neg hx]
        simp only [Transcript.sign]
        cases hs : Identity.signAuthentication identity
          ((h.transcript remote).authentication h.role) with
        | mk signature identity' =>
          cases signature with
          | error e => exact .rejected (.inr ⟨_, e, hs⟩)
          | ok signature =>
            obtain ⟨answer, ha, -⟩ := rawFrame_eq .auth (Auth.mk signature).encode rfl
              (by simp [maxPayloadBytes])
            simp only [ha]
            exact .hello hc hv hr hk hi (by simpa using hx) hs ha hd

theorem processAuth_received {h : Handshake γ} {frame : WireFrame} {identity : ι} {crypto : γ}
    {remote : Hello} {id : IdentityId} (hc : h.closed = false) (hv : h.peerVerified = false)
    (hr : h.remote = some (remote, id)) (hk : frame.header.frameType = .auth)
    (hp : h.process frame identity crypto = h.processAuth remote frame.payload identity crypto) :
    Received h frame identity crypto (h.receive frame identity crypto) := by
  simp only [receive, hp, processAuth, Transcript.verify]
  cases hd : Auth.decode frame.payload with
  | error e => exact .rejected (.inl rfl)
  | ok auth =>
    simp only
    cases hs : Cryptography.verifySignature crypto remote.identityPublicKey
      ((h.transcript remote).authentication h.role.opposite).bytes auth.signature with
    | error e => exact .rejected (.inl rfl)
    | ok =>
      simp only
      cases hx : h.secret with
      | none => exact .rejected (.inl rfl)
      | some secret =>
        simp only [transcript]
        cases hk' : deriveKeys h.role secret remote.ephemeralPublicKey (h.transcript remote)
          crypto with
        | mk keys crypto' =>
          simp only [transcript] at hk'
          cases keys with
          | error e =>
            simp only [hk']
            exact .rejected (.inl rfl)
          | ok keys =>
            simp only [hk']
            exact .auth hc hv hr hk hd hs hx hk'

theorem receive_received (h : Handshake γ) (frame : WireFrame) (identity : ι) (crypto : γ) :
    Received h frame identity crypto (h.receive frame identity crypto) := by
  by_cases hb : h.closed ∨ h.peerVerified ∨ frame.header.streamId ≠ 0 ∨ frame.tag.isSome
  · simp only [receive, process, if_pos hb]
    exact .rejected (.inl rfl)
  · obtain ⟨hc, hv, -⟩ := by simpa only [not_or, Bool.not_eq_true] using hb
    cases hk : frame.header.frameType <;> cases hr : h.remote
    case hello.none =>
      exact processHello_received hc hv hr hk (by simp only [process, if_neg hb, hk, hr])
    case auth.some peer =>
      exact processAuth_received hc hv hr hk (by simp only [process, if_neg hb, hk, hr])
    case error.none | error.some =>
      simp only [receive, process, if_neg hb, hk]
      cases ErrorPayload.decode frame.payload <;> exact .rejected (.inl rfl)
    all_goals
      simp only [receive, process, if_neg hb, hk, hr]
      exact .rejected (.inl rfl)

theorem begin_ok {role : ConnectionRole} {expected : ExpectedPeer} {identity : ι}
    {crypto crypto' : γ} {h : Handshake γ} {frame : WireFrame}
    (hb : begin role expected identity crypto = (.ok (h, frame), crypto')) :
    ∃ pub ephemeral nonce c, Identity.publicIdentity identity = .ok pub ∧
      Cryptography.ephemeralKey crypto = (.ok ephemeral, c) ∧
      h = { role, expected, localIdentity := pub.id
            localHello := ⟨pub.signingPublicKey, ephemeral.publicKey, nonce⟩
            secret := some ephemeral.privateKey } ∧
      rawFrame .hello h.localHello.encode = .ok frame := by
  simp only [begin] at hb
  split at hb <;> try simp at hb
  rename_i pub hp
  split at hb <;> try simp at hb
  rename_i ephemeral c he
  split at hb <;> try simp at hb
  split at hb <;> try simp at hb
  rename_i hf
  obtain ⟨⟨rfl, rfl⟩, -⟩ := hb
  exact ⟨pub, ephemeral, _, c, hp, he, rfl, hf⟩

theorem sent_cases (h : Handshake γ) (kind : FrameType) :
    (kind = .hello ∧ h.closed = false ∧ h.sent kind = (.ok (), { h with helloSent := true })) ∨
      (kind = .auth ∧ h.closed = false ∧ h.helloSent = true ∧ h.remote.isSome ∧
        h.sent kind = (.ok (), { h with authSent := true })) ∨
      h.sent kind = (.error .order, h.close) := by
  simp only [sent]
  split
  case isTrue hb => exact .inl ⟨hb.1, by simpa using hb.2.1, rfl⟩
  case isFalse =>
    split
    case isTrue hb => exact .inr (.inl ⟨hb.1, by simpa using hb.2.1, hb.2.2.1, hb.2.2.2.2, rfl⟩)
    case isFalse => exact .inr (.inr rfl)

theorem takeEstablished_cases (h : Handshake γ) :
    h.takeEstablished = (none, h) ∨ ∃ r id keys, h.isAuthenticated = true ∧
      h.remote = some (r, id) ∧ h.keys = some keys ∧ h.takeEstablished =
        (some ⟨h.role, h.localIdentity, id, keys⟩, { h with keys := none }) := by
  by_cases ha : h.isAuthenticated = true
  · cases hr : h.remote with
    | none => exact .inl (by simp [takeEstablished, hr])
    | some peer =>
      cases hk : h.keys with
      | none => exact .inl (by simp [takeEstablished, hr, hk])
      | some keys => exact .inr ⟨peer.1, peer.2, keys, ha, rfl, rfl,
          by simp [takeEstablished, ha, hr, hk]⟩
  · exact .inl (by simp [takeEstablished, ha])

end Handshake

end TalkSphere
