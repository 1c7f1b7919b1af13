import Mathlib.Data.Set.Basic
import Mathlib.Logic.Relation
import TalkSphere.Handshake

/-! Any number of handshakes and an attacker who delivers whatever it likes to them.
Signatures are recorded where a signing port is asked for them, so what an instance
signs is what the handshake hands to its port and nothing else. -/

namespace TalkSphere

open Cryptography (EphemeralSecret SharedSecret PseudorandomKey IntegrityKey)
open Relation (ReflTransGen)

/-- A signing port that keeps the messages it signed. -/
structure Logged (ι : Type) where
  port : ι
  signed : List AuthenticationMessage := []

instance {ι : Type} [Identity ι] : Identity (Logged ι) where
  publicIdentity i := Identity.publicIdentity i.port
  identify i key := Identity.identify i.port key
  signAuthentication i m :=
    match Identity.signAuthentication i.port m with
    | (.error e, port) => (.error e, { i with port })
    | (.ok signature, port) => (.ok signature, ⟨port, i.signed ++ [m]⟩)

/-- Key agreement commutes and every derivation is a function of its input. -/
structure KeySchedule (γ : Type) [Cryptography γ] where
  publicKey : EphemeralSecret γ → Bytes32
  shared : EphemeralSecret γ → Bytes32 → SharedSecret γ
  hash : List UInt8 → Bytes32
  extract : Bytes32 → SharedSecret γ → PseudorandomKey γ
  expandKey : PseudorandomKey γ → List UInt8 → IntegrityKey γ
  expandPrefix : PseudorandomKey γ → List UInt8 → Vector UInt8 16
  shared_comm : ∀ a b, shared a (publicKey b) = shared b (publicKey a)
  ephemeralKey_ok : ∀ {c c' : γ} {k}, Cryptography.ephemeralKey c = (.ok k, c') →
    k.publicKey = publicKey k.privateKey
  agree_ok : ∀ {c c' : γ} {s remote v}, Cryptography.agree c s remote = (.ok v, c') →
    v = shared s remote
  sha256_ok : ∀ {c : γ} {bytes v}, Cryptography.sha256 c bytes = .ok v → v = hash bytes
  extract_ok : ∀ {c c' : γ} {salt s v}, Cryptography.extract c salt s = (.ok v, c') →
    v = extract salt s
  expandKey_ok : ∀ {c c' : γ} {prk info v}, Cryptography.expandKey c prk info = (.ok v, c') →
    v = expandKey prk info
  expandPrefix_ok : ∀ {c : γ} {prk info v}, Cryptography.expandNoncePrefix c prk info = .ok v →
    v = expandPrefix prk info

/-- Identity ids are computed from keys, one for each key. -/
structure Naming (ι : Type) [Identity ι] where
  idOf : Bytes32 → IdentityId
  idOf_injective : Function.Injective idOf
  identify_ok : ∀ {i : ι} {key id}, Identity.identify i key = .ok id → id = idOf key
  publicIdentity_ok : ∀ {i : ι} {p}, Identity.publicIdentity i = .ok p →
    p.id = idOf p.signingPublicKey

namespace KeySchedule

variable {γ : Type} [Cryptography γ] (K : KeySchedule γ)

def prk (secret : EphemeralSecret γ) (remote : Bytes32) (t : Transcript) : PseudorandomKey γ :=
  K.extract (K.hash (saltInput t)) (K.shared secret remote)

def i2a (prk : PseudorandomKey γ) : DirectionKeys (IntegrityKey γ) :=
  ⟨K.expandKey prk (utf8 "CR2SE-NETWORK-V1-I2A-KEY"),
    K.expandPrefix prk (utf8 "CR2SE-NETWORK-V1-I2A-NONCE")⟩

def a2i (prk : PseudorandomKey γ) : DirectionKeys (IntegrityKey γ) :=
  ⟨K.expandKey prk (utf8 "CR2SE-NETWORK-V1-A2I-KEY"),
    K.expandPrefix prk (utf8 "CR2SE-NETWORK-V1-A2I-NONCE")⟩

def keys (role : ConnectionRole) (secret : EphemeralSecret γ) (remote : Bytes32)
    (t : Transcript) : SessionKeys (IntegrityKey γ) :=
  .orient role (K.i2a (K.prk secret remote t)) (K.a2i (K.prk secret remote t))

theorem deriveKeys_ok {role : ConnectionRole} {secret : EphemeralSecret γ} {remote : Bytes32}
    {t : Transcript} {c c' : γ} {k : SessionKeys (IntegrityKey γ)}
    (h : deriveKeys role secret remote t c = (.ok k, c')) : k = K.keys role secret remote t := by
  simp only [deriveKeys] at h
  split at h <;> try simp at h
  rename_i shared _ hs
  split at h <;> try simp at h
  rename_i salt hh
  split at h <;> try simp at h
  rename_i prk _ hp
  split at h <;> try simp at h
  rename_i i2aKey _ hik
  split at h <;> try simp at h
  rename_i a2iKey _ hak
  split at h <;> try simp at h
  rename_i i2aPrefix hip
  split at h <;> try simp at h
  rename_i a2iPrefix hap
  rw [← h.1, K.expandKey_ok hik, K.expandKey_ok hak, K.expandPrefix_ok hip, K.expandPrefix_ok hap,
    K.extract_ok hp, K.sha256_ok hh, K.agree_ok hs]
  rfl

theorem keys_cross (role : ConnectionRole) (a b : EphemeralSecret γ) (t : Transcript) :
    (K.keys role a (K.publicKey b) t).send = (K.keys role.opposite b (K.publicKey a) t).receive ∧
      (K.keys role a (K.publicKey b) t).receive =
        (K.keys role.opposite b (K.publicKey a) t).send := by
  have hp : K.prk a (K.publicKey b) t = K.prk b (K.publicKey a) t := by
    rw [prk, K.shared_comm a b, prk]
  cases role <;> simp only [keys, hp, ConnectionRole.opposite, SessionKeys.orient, and_self]

end KeySchedule

structure Instance (γ : Type) [Cryptography γ] where
  handshake : Handshake γ
  established : Option (Established (IntegrityKey γ)) := none

def Instance.sessionKeys {γ : Type} [Cryptography γ] (x : Instance γ) :
    Option (SessionKeys (IntegrityKey γ)) :=
  x.handshake.keys <|> x.established.map (·.keys)

structure Signature where
  signer : Nat
  key : Bytes32
  message : AuthenticationMessage

structure Network (γ : Type) [Cryptography γ] where
  instances : List (Instance γ) := []
  signatures : List Signature := []

namespace Network

variable {γ ι : Type} [Cryptography γ] [Identity ι]

/-- A delivered signature that verifies under an honest key was made by its holder. -/
def Unforged (honest : Set Bytes32) (signatures : List Signature) (frame : WireFrame)
    (crypto : γ) : Prop :=
  ∀ auth key m, Auth.decode frame.payload = .ok auth → key ∈ honest →
    Cryptography.verifySignature crypto key m auth.signature = .ok () →
    ∃ s ∈ signatures, s.key = key ∧ s.message.bytes = m

def deliver (holder : ι → Bytes32) (n : Network γ) (i : Nat) (x : Instance γ) (frame : WireFrame)
    (identity : ι) (crypto : γ) : Network γ :=
  let result := x.handshake.receive frame (Logged.mk identity []) crypto
  { instances := n.instances.set i { x with handshake := result.2.1 }
    signatures := n.signatures ++ result.2.2.1.signed.map (Signature.mk i (holder identity)) }

def take (n : Network γ) (i : Nat) (x : Instance γ) : Network γ :=
  let result := x.handshake.takeEstablished
  { n with instances := n.instances.set i ⟨result.2, result.1 <|> x.established⟩ }

/-- Frames are arbitrary, and so is every order of calls on every instance. -/
inductive Step (holder : ι → Bytes32) (honest : Set Bytes32) : Network γ → Network γ → Prop
  | begin {n : Network γ} {role : ConnectionRole} {expected : ExpectedPeer} {identity : ι}
      {crypto crypto' : γ} {h : Handshake γ} {frame : WireFrame}
      (hb : Handshake.begin role expected identity crypto = (.ok (h, frame), crypto')) :
      Step holder honest n { n with instances := n.instances ++ [{ handshake := h }] }
  | deliver {n : Network γ} {i : Nat} {x : Instance γ} {frame : WireFrame} {identity : ι}
      {crypto : γ} (hx : n.instances[i]? = some x)
      (hu : Unforged honest n.signatures frame crypto) :
      Step holder honest n (n.deliver holder i x frame identity crypto)
  | sent {n : Network γ} {i : Nat} {x : Instance γ} (kind : FrameType)
      (hx : n.instances[i]? = some x) :
      Step holder honest n { n with
        instances := n.instances.set i { x with handshake := (x.handshake.sent kind).2 } }
  | take {n : Network γ} {i : Nat} {x : Instance γ} (hx : n.instances[i]? = some x) :
      Step holder honest n (n.take i x)
  | close {n : Network γ} {i : Nat} {x : Instance γ} (hx : n.instances[i]? = some x) :
      Step holder honest n { n with
        instances := n.instances.set i { x with handshake := x.handshake.close } }

end Network

namespace Handshake

variable {γ ι : Type} [Cryptography γ] [Identity ι]

/-- What no call on a handshake changes; a known peer stays known. -/
structure Follows (h h' : Handshake γ) : Prop where
  role : h'.role = h.role
  expected : h'.expected = h.expected
  localIdentity : h'.localIdentity = h.localIdentity
  localHello : h'.localHello = h.localHello
  remote : ∀ p, h.remote = some p → h'.remote = some p

theorem Follows.transcript {h h' : Handshake γ} (hf : h.Follows h') (r : Hello) :
    h'.transcript r = h.transcript r := by
  simp only [Handshake.transcript, hf.role, hf.localHello]

theorem close_follows (h : Handshake γ) : h.Follows h.close :=
  ⟨rfl, rfl, rfl, rfl, fun _ hp => hp⟩

theorem sent_follows (h : Handshake γ) (kind : FrameType) : h.Follows (h.sent kind).2 := by
  rcases h.sent_cases kind with ⟨-, -, hs⟩ | ⟨-, -, -, -, hs⟩ | hs <;> rw [hs]
  · exact ⟨rfl, rfl, rfl, rfl, fun _ hp => hp⟩
  · exact ⟨rfl, rfl, rfl, rfl, fun _ hp => hp⟩
  · exact h.close_follows

theorem takeEstablished_follows (h : Handshake γ) : h.Follows h.takeEstablished.2 := by
  rcases h.takeEstablished_cases with ht | ⟨r, id, keys, -, -, -, ht⟩ <;> rw [ht]
  all_goals exact ⟨rfl, rfl, rfl, rfl, fun _ hp => hp⟩

theorem receive_follows (h : Handshake γ) (frame : WireFrame) (identity : ι) (crypto : γ) :
    h.Follows (h.receive frame identity crypto).2.1 := by
  have hr := h.receive_received frame identity crypto
  generalize h.receive frame identity crypto = result at hr
  cases hr with
  | rejected => exact h.close_follows
  | hello _ _ first => exact ⟨rfl, rfl, rfl, rfl, fun _ hp => by simp [first] at hp⟩
  | auth => exact ⟨rfl, rfl, rfl, rfl, fun _ hp => hp⟩

theorem receive_signed {h : Handshake γ} {frame : WireFrame} {identity : ι} {crypto : γ}
    {m : AuthenticationMessage}
    (hm : m ∈ (h.receive frame (Logged.mk identity []) crypto).2.2.1.signed) :
    ∃ r id, (h.receive frame (Logged.mk identity []) crypto).2.1.remote = some (r, id) ∧
      m = (h.transcript r).authentication h.role := by
  have hr := h.receive_received frame (Logged.mk identity []) crypto
  generalize h.receive frame (Logged.mk identity []) crypto = result at hr hm
  cases hr with
  | rejected unsigned =>
    rcases unsigned with hi | ⟨m', e, hs⟩
    · simp [hi] at hm
    · simp only [Identity.signAuthentication] at hs
      split at hs
      · simp only [Prod.mk.injEq] at hs
        simp [← hs.2] at hm
      · simp at hs
  | @hello r id _ _ _ _ _ _ _ _ _ signed =>
    refine ⟨r, id, rfl, ?_⟩
    simp only [Identity.signAuthentication] at signed
    split at signed
    · simp at signed
    · simp only [Prod.mk.injEq] at signed
      simpa [← signed.2] using hm
  | auth => simp at hm

end Handshake

namespace Instance

variable {γ ι : Type} [Cryptography γ] [Identity ι]

/-- What an instance knows of its peer and of its keys, in terms of what it exchanged. -/
structure Sound (K : KeySchedule γ) (idOf : Bytes32 → IdentityId) (x : Instance γ) : Prop where
  own : x.handshake.localIdentity = idOf x.handshake.localHello.identityPublicKey
  named : ∀ r id, x.handshake.remote = some (r, id) →
    id = idOf r.identityPublicKey ∧ x.handshake.expected.excludes id = false
  verified : x.handshake.peerVerified = true → x.handshake.remote.isSome
  held : x.handshake.closed = false → x.handshake.peerVerified = true → x.sessionKeys.isSome
  keyed : ∃ secret, x.handshake.localHello.ephemeralPublicKey = K.publicKey secret ∧
    (∀ s, x.handshake.secret = some s → s = secret) ∧
    ∀ k, x.handshake.keys = some k ∨ x.established.map (·.keys) = some k →
      ∃ r id, x.handshake.remote = some (r, id) ∧
        k = K.keys x.handshake.role secret r.ephemeralPublicKey (x.handshake.transcript r)

variable {K : KeySchedule γ} {idOf : Bytes32 → IdentityId} {x : Instance γ}

theorem Sound.follow (hx : x.Sound K idOf) {y : Instance γ}
    (hf : x.handshake.Follows y.handshake) (hr : y.handshake.remote = x.handshake.remote)
    (hv : y.handshake.peerVerified = x.handshake.peerVerified)
    (hh : y.handshake.closed = false → x.handshake.closed = false ∧
      (x.sessionKeys.isSome → y.sessionKeys.isSome))
    (hs : ∀ s, y.handshake.secret = some s → x.handshake.secret = some s)
    (hk : ∀ k, y.handshake.keys = some k ∨ y.established.map (·.keys) = some k →
      x.handshake.keys = some k ∨ x.established.map (·.keys) = some k) : y.Sound K idOf := by
  obtain ⟨secret, hpub, hsec, hkeys⟩ := hx.keyed
  refine ⟨?_, ?_, ?_, ?_, secret, ?_, fun s h => hsec s (hs s h), fun k h => ?_⟩
  · rw [hf.localIdentity, hf.localHello]
    exact hx.own
  · rw [hr, hf.expected]
    exact hx.named
  · rw [hv, hr]
    exact hx.verified
  · intro hc hp
    exact (hh hc).2 (hx.held (hh hc).1 (hv ▸ hp))
  · rw [hf.localHello, hpub]
  · rw [hr, hf.role]
    simp only [hf.transcript]
    exact hkeys k (hk k h)

theorem Sound.close (hx : x.Sound K idOf) :
    Sound K idOf { x with handshake := x.handshake.close } :=
  hx.follow x.handshake.close_follows rfl rfl (by simp [Handshake.close])
    (by simp [Handshake.close]) (by simp [Handshake.close]; tauto)

theorem Sound.sent (hx : x.Sound K idOf) (kind : FrameType) :
    Sound K idOf { x with handshake := (x.handshake.sent kind).2 } := by
  have hf := x.handshake.sent_follows kind
  rcases x.handshake.sent_cases kind with ⟨-, -, hs⟩ | ⟨-, -, -, -, hs⟩ | hs <;>
    simp only [hs] at hf ⊢
  · exact hx.follow hf rfl rfl (fun h => ⟨h, id⟩) (by simp) (by simp)
  · exact hx.follow hf rfl rfl (fun h => ⟨h, id⟩) (by simp) (by simp)
  · exact hx.close

theorem Sound.take (hx : x.Sound K idOf) :
    Sound K idOf ⟨x.handshake.takeEstablished.2,
      x.handshake.takeEstablished.1 <|> x.established⟩ := by
  have hf := x.handshake.takeEstablished_follows
  rcases x.handshake.takeEstablished_cases with ht | ⟨r, id, keys, -, -, hk, ht⟩ <;>
    simp only [ht] at hf ⊢
  · exact hx
  · refine hx.follow hf rfl rfl (fun h => ⟨h, ?_⟩) (by simp) ?_
    · simp [sessionKeys]
    · intro k h
      rcases h with h | h
      · simp at h
      · exact .inl (hk.trans h)

theorem Sound.receive (hx : x.Sound K idOf)
    {frame : WireFrame} {identity : ι} {crypto : γ}
    (hn : ∀ key id, Identity.identify identity key = .ok id → id = idOf key) :
    Sound K idOf { x with handshake := (x.handshake.receive frame identity crypto).2.1 } := by
  have hr := x.handshake.receive_received frame identity crypto
  generalize x.handshake.receive frame identity crypto = result at hr
  obtain ⟨secret, hpub, hsec, hkeys⟩ := hx.keyed
  cases hr with
  | rejected => exact hx.close
  | @hello r id _ _ _ _ unverified first _ identified pinned =>
    have hnone : ∀ k, ¬ (x.handshake.keys = some k ∨ x.established.map (·.keys) = some k) := by
      intro k h
      obtain ⟨r, id, hr, -⟩ := hkeys k h
      simp [first] at hr
    refine ⟨hx.own, ?_, fun _ => rfl, fun _ hv => ?_, secret, hpub, hsec,
      fun k h => absurd h (hnone k)⟩
    · intro r' id' h
      obtain ⟨rfl, rfl⟩ : r = r' ∧ id = id' := by simpa using h
      exact ⟨hn _ _ identified, pinned⟩
    · simp [unverified] at hv
  | @auth r id _ s keys _ _ unverified known _ _ _ held derived =>
    refine ⟨hx.own, hx.named, fun _ => by simp [known], fun _ _ => by simp [sessionKeys], secret,
      hpub, by simp, fun k h => ?_⟩
    rcases h with h | h
    · obtain rfl : keys = k := by simpa using h
      refine ⟨r, id, known, ?_⟩
      rw [K.deriveKeys_ok derived, hsec s held]
      rfl
    · exact hkeys k (.inr h)

theorem Sound.begin {role : ConnectionRole} {expected : ExpectedPeer} {identity : ι}
    {crypto crypto' : γ} {h : Handshake γ} {frame : WireFrame}
    (hn : ∀ p, Identity.publicIdentity identity = .ok p → p.id = idOf p.signingPublicKey)
    (hb : Handshake.begin role expected identity crypto = (.ok (h, frame), crypto')) :
    Sound K idOf { handshake := h } := by
  obtain ⟨pub, ephemeral, nonce, c, hp, he, rfl, -⟩ := Handshake.begin_ok hb
  exact ⟨hn pub hp, by simp, by simp, by simp, ephemeral.privateKey, K.ephemeralKey_ok he, by simp,
    by simp⟩

end Instance

namespace Network

variable {γ ι : Type} [Cryptography γ] [Identity ι]

def Proven (honest : Set Bytes32) (signatures : List Signature) (h : Handshake γ) : Prop :=
  ∀ r id, h.remote = some (r, id) → h.peerVerified = true → r.identityPublicKey ∈ honest →
    ∃ s ∈ signatures, s.key = r.identityPublicKey ∧
      s.message = (h.transcript r).authentication h.role.opposite

structure Sound (K : KeySchedule γ) (idOf : Bytes32 → IdentityId) (honest : Set Bytes32)
    (n : Network γ) : Prop where
  sound : ∀ x ∈ n.instances, x.Sound K idOf
  signed : ∀ s ∈ n.signatures, ∃ y r id, n.instances[s.signer]? = some y ∧
    y.handshake.remote = some (r, id) ∧
    s.message = (y.handshake.transcript r).authentication y.handshake.role
  proven : ∀ x ∈ n.instances, Proven honest n.signatures x.handshake

variable {K : KeySchedule γ} {idOf : Bytes32 → IdentityId} {honest : Set Bytes32} {n : Network γ}

theorem Proven.mono {signatures new : List Signature} {h : Handshake γ}
    (hp : Proven honest signatures h) : Proven honest (signatures ++ new) h := by
  intro r id hr hv hk
  obtain ⟨s, hs, hkey, hm⟩ := hp r id hr hv hk
  exact ⟨s, List.mem_append_left _ hs, hkey, hm⟩

theorem Proven.follow {signatures : List Signature} {h h' : Handshake γ}
    (hp : Proven honest signatures h) (hf : h.Follows h') (hr : h'.remote = h.remote)
    (hv : h'.peerVerified = h.peerVerified) : Proven honest signatures h' := by
  intro r id hrem hver hk
  rw [hf.transcript, hf.role]
  exact hp r id (hr ▸ hrem) (hv ▸ hver) hk

theorem Sound.set (hn : n.Sound K idOf honest) {i : Nat} {x y : Instance γ}
    (hx : n.instances[i]? = some x) (hf : x.handshake.Follows y.handshake)
    (hy : y.Sound K idOf) (new : List Signature)
    (hnew : ∀ s ∈ new, s.signer = i ∧ ∃ r id, y.handshake.remote = some (r, id) ∧
      s.message = (y.handshake.transcript r).authentication y.handshake.role)
    (hp : Proven honest (n.signatures ++ new) y.handshake) :
    Sound K idOf honest ⟨n.instances.set i y, n.signatures ++ new⟩ := by
  have hi : i < n.instances.length := (List.getElem?_eq_some_iff.1 hx).1
  refine ⟨fun z hz => ?_, fun s hs => ?_, fun z hz => ?_⟩
  · rcases List.mem_or_eq_of_mem_set hz with hz | rfl
    · exact hn.sound z hz
    · exact hy
  · rcases List.mem_append.1 hs with hs | hs
    · obtain ⟨z, r, id, hz, hr, hm⟩ := hn.signed s hs
      by_cases he : i = s.signer
      · obtain rfl : x = z := by simpa [← he, hx] using hz
        refine ⟨y, r, id, by simp [← he, hi], hf.remote _ hr, ?_⟩
        rw [hf.transcript, hf.role, hm]
      · exact ⟨z, r, id, by simp [List.getElem?_set_ne he, hz], hr, hm⟩
    · obtain ⟨rfl, r, id, hr, hm⟩ := hnew s hs
      exact ⟨y, r, id, by simp [hi], hr, hm⟩
  · rcases List.mem_or_eq_of_mem_set hz with hz | rfl
    · exact (hn.proven z hz).mono
    · exact hp

theorem Sound.quiet (hn : n.Sound K idOf honest) {i : Nat} {x y : Instance γ}
    (hx : n.instances[i]? = some x) (hf : x.handshake.Follows y.handshake)
    (hy : y.Sound K idOf) (hr : y.handshake.remote = x.handshake.remote)
    (hv : y.handshake.peerVerified = x.handshake.peerVerified) :
    Sound K idOf honest { n with instances := n.instances.set i y } := by
  have hp := (hn.proven x (List.mem_of_getElem? hx)).follow hf hr hv
  simpa using hn.set hx hf hy [] (by simp) (by simpa using hp)

theorem Sound.deliver (hn : n.Sound K idOf honest) {holder : ι → Bytes32} {i : Nat}
    {x : Instance γ} {frame : WireFrame} {identity : ι} {crypto : γ}
    (hx : n.instances[i]? = some x)
    (hid : ∀ key id, Identity.identify identity key = .ok id → id = idOf key)
    (hu : Unforged honest n.signatures frame crypto) :
    Sound K idOf honest (n.deliver holder i x frame identity crypto) := by
  have hf := x.handshake.receive_follows frame (Logged.mk identity []) crypto
  have hmem := List.mem_of_getElem? hx
  have hy : Instance.Sound K idOf { x with
      handshake := (x.handshake.receive frame (Logged.mk identity []) crypto).2.1 } :=
    (hn.sound x hmem).receive hid
  refine hn.set hx hf hy _ ?_ ?_
  · intro s hs
    obtain ⟨m, hm, rfl⟩ := List.mem_map.1 hs
    obtain ⟨r, id, hr, he⟩ := Handshake.receive_signed hm
    exact ⟨rfl, r, id, hr, by rw [he, hf.transcript, hf.role]⟩
  · have hr := x.handshake.receive_received frame (Logged.mk identity []) crypto
    generalize x.handshake.receive frame (Logged.mk identity []) crypto = result at hr hf
    cases hr with
    | rejected => exact ((hn.proven x hmem).follow hf rfl rfl).mono
    | hello _ unverified => intro _ _ _ hv; simp [unverified] at hv
    | @auth r id auth _ _ _ _ _ known _ decoded verified =>
      intro r' id' hr' _ hk
      obtain ⟨rfl, -⟩ : r = r' ∧ id = id' := by simpa [known] using hr'
      obtain ⟨s, hs, hkey, hm⟩ := hu auth _ _ decoded hk verified
      exact ⟨s, List.mem_append_left _ hs, hkey, congrArg AuthenticationMessage.mk hm⟩

theorem Sound.step (N : Naming ι) {holder : ι → Bytes32} {n' : Network γ}
    (hn : n.Sound K N.idOf honest) (hs : Step holder honest n n') : n'.Sound K N.idOf honest := by
  cases hs with
  | begin hb =>
    refine ⟨fun x hx => ?_, fun s hs => ?_, fun x hx => ?_⟩
    · rcases List.mem_append.1 hx with hx | hx
      · exact hn.sound x hx
      · rw [List.mem_singleton.1 hx]
        exact .begin (fun _ h => N.publicIdentity_ok h) hb
    · obtain ⟨y, r, id, hy, h⟩ := hn.signed s hs
      exact ⟨y, r, id, List.getElem?_append_left (List.getElem?_eq_some_iff.1 hy).1 ▸ hy, h⟩
    · rcases List.mem_append.1 hx with hx | hx
      · exact hn.proven x hx
      · obtain ⟨pub, ephemeral, nonce, c, -, -, rfl, -⟩ := Handshake.begin_ok hb
        intro r id hr
        simp [List.mem_singleton.1 hx] at hr
  | deliver hx hu => exact hn.deliver hx (fun _ _ h => N.identify_ok h) hu
  | @sent i x kind hx =>
    refine hn.quiet hx (x.handshake.sent_follows kind)
      ((hn.sound x (List.mem_of_getElem? hx)).sent kind) ?_ ?_ <;>
    rcases x.handshake.sent_cases kind with ⟨-, -, hs⟩ | ⟨-, -, -, -, hs⟩ | hs <;> rw [hs] <;> rfl
  | @take i x hx =>
    refine hn.quiet hx x.handshake.takeEstablished_follows
      (hn.sound x (List.mem_of_getElem? hx)).take ?_ ?_ <;>
    rcases x.handshake.takeEstablished_cases with ht | ⟨r, id, keys, -, -, -, ht⟩ <;> rw [ht]
  | @close i x hx =>
    exact hn.quiet hx x.handshake.close_follows (hn.sound x (List.mem_of_getElem? hx)).close rfl
      rfl

theorem Sound.reached (N : Naming ι) {holder : ι → Bytes32}
    (hn : ReflTransGen (Step holder honest) {} n) : n.Sound K N.idOf honest := by
  induction hn with
  | refl => exact ⟨by simp, by simp, by simp⟩
  | tail _ hs ih => exact ih.step N hs

end Network

namespace Handshake

variable {γ : Type} [Cryptography γ]

theorem transcript_inj {h h' : Handshake γ} {r r' : Hello} (hrole : h'.role = h.role.opposite)
    (ht : h'.transcript r' = h.transcript r) : h'.localHello = r ∧ h.localHello = r' := by
  cases hr : h.role <;> simp only [transcript, hr, hrole, ConnectionRole.opposite] at ht <;>
    obtain ⟨h₁, h₂⟩ := Transcript.new_inj ht
  · exact ⟨h₂, h₁.symm⟩
  · exact ⟨h₁, h₂.symm⟩

end Handshake

theorem Instance.sessionKeys_source {γ : Type} [Cryptography γ] {x : Instance γ}
    {k : SessionKeys (IntegrityKey γ)} (hk : x.sessionKeys = some k) :
    x.handshake.keys = some k ∨ x.established.map (·.keys) = some k := by
  simp only [sessionKeys] at hk
  cases hh : x.handshake.keys with
  | none => exact .inr (by simpa [hh] using hk)
  | some k' => exact .inl (by simpa [hh] using hk)

theorem Instance.Sound.cross {γ : Type} [Cryptography γ] {K : KeySchedule γ}
    {idOf : Bytes32 → IdentityId} {x y : Instance γ} {r r' : Hello} {id id' : IdentityId}
    {k k' : SessionKeys (IntegrityKey γ)} (hx : x.Sound K idOf) (hy : y.Sound K idOf)
    (hxr : x.handshake.remote = some (r, id)) (hyr : y.handshake.remote = some (r', id'))
    (hrole : y.handshake.role = x.handshake.role.opposite)
    (ht : y.handshake.transcript r' = x.handshake.transcript r) (hk : x.sessionKeys = some k)
    (hk' : y.sessionKeys = some k') : k.send = k'.receive ∧ k.receive = k'.send := by
  obtain ⟨hl, hl'⟩ := Handshake.transcript_inj hrole ht
  obtain ⟨a, ha, -, hka⟩ := hx.keyed
  obtain ⟨b, hb, -, hkb⟩ := hy.keyed
  obtain ⟨q, _, hq, rfl⟩ := hka k (sessionKeys_source hk)
  obtain ⟨q', _, hq', rfl⟩ := hkb k' (sessionKeys_source hk')
  obtain ⟨rfl, -⟩ : r = q ∧ _ := by simpa [hxr] using hq
  obtain ⟨rfl, -⟩ : r' = q' ∧ _ := by simpa [hyr] using hq'
  rw [ht, show r.ephemeralPublicKey = K.publicKey b from hl ▸ hb,
    show r'.ephemeralPublicKey = K.publicKey a from hl' ▸ ha, hrole]
  exact K.keys_cross x.handshake.role a b (x.handshake.transcript r)

/-- An authenticated instance has the peer it was told to expect. When that peer's key
is honest, an instance of it in the other role signed the same transcript, and if that
one is authenticated as well the keys of the two match. -/
theorem handshake_agreement {γ ι : Type} [Cryptography γ] [Identity ι] (K : KeySchedule γ)
    (N : Naming ι) (holder : ι → Bytes32) (honest : Set Bytes32) {n : Network γ}
    (hn : ReflTransGen (Network.Step holder honest) {} n) {i : Nat} {x : Instance γ}
    (hx : n.instances[i]? = some x) (ha : x.handshake.isAuthenticated = true) :
    ∃ r id, x.handshake.remote = some (r, id) ∧
      (∀ key, id = N.idOf key ↔ key = r.identityPublicKey) ∧
      (∀ pin, x.handshake.expected = .known pin → id = pin) ∧
      (r.identityPublicKey ∈ honest → ∃ j y l lid, n.instances[j]? = some y ∧
        y.handshake.role = x.handshake.role.opposite ∧ y.handshake.localHello = r ∧
        y.handshake.localIdentity = id ∧ y.handshake.remote = some (l, lid) ∧
        l = x.handshake.localHello ∧ y.handshake.transcript l = x.handshake.transcript r ∧
        ⟨j, r.identityPublicKey, (x.handshake.transcript r).authentication y.handshake.role⟩ ∈
          n.signatures ∧
        (y.handshake.isAuthenticated = true → ∃ k k', x.sessionKeys = some k ∧
          y.sessionKeys = some k' ∧ k.send = k'.receive ∧ k.receive = k'.send)) := by
  have hs : n.Sound K N.idOf honest := .reached N hn
  have held : ∀ z ∈ n.instances, z.handshake.isAuthenticated = true →
      z.handshake.peerVerified = true ∧ ∃ k, z.sessionKeys = some k := by
    intro z hz ha
    obtain ⟨⟨hc, -⟩, hv⟩ : (z.handshake.closed = false ∧ _) ∧ z.handshake.peerVerified = true := by
      simpa [Handshake.isAuthenticated] using ha
    exact ⟨hv, Option.isSome_iff_exists.1 ((hs.sound z hz).held hc hv)⟩
  have hxm := List.mem_of_getElem? hx
  have hxs := hs.sound x hxm
  obtain ⟨hv, k, hk⟩ := held x hxm ha
  obtain ⟨⟨r, id⟩, hr⟩ := Option.isSome_iff_exists.1 (hxs.verified hv)
  obtain ⟨hid, hpin⟩ := hxs.named r id hr
  refine ⟨r, id, hr, fun key => ?_, fun pin hp => ?_, fun hh => ?_⟩
  · rw [hid]
    exact ⟨fun h => (N.idOf_injective h).symm, fun h => h ▸ rfl⟩
  · have he : pin = id := by simpa [hp, ExpectedPeer.excludes] using hpin
    exact he.symm
  · obtain ⟨s, hsm, hkey, hm⟩ := hs.proven x hxm r id hr hv hh
    obtain ⟨y, l, lid, hy, hyr, hym⟩ := hs.signed s hsm
    obtain ⟨hrole, ht⟩ := Transcript.authentication_inj (hym.symm.trans hm)
    obtain ⟨hl, hl'⟩ := Handshake.transcript_inj hrole ht
    have hym' := List.mem_of_getElem? hy
    refine ⟨s.signer, y, l, lid, hy, hrole, hl, ?_, hyr, hl'.symm, ht, ?_, fun hya => ?_⟩
    · rw [(hs.sound y hym').own, hl, hid]
    · rw [hrole, ← hm, ← hkey]
      exact hsm
    · obtain ⟨-, k', hk'⟩ := held y hym' hya
      exact ⟨k, k', hk, hk', hxs.cross (hs.sound y hym') hr hyr hrole ht hk hk'⟩

/-! Two mock instances that pin each other and get each other's frames. -/

def mockKeySchedule : KeySchedule MockCrypto where
  publicKey secret := secret
  shared (a b : Bytes32) := Vector.zipWith (· + ·) a b
  hash _ := .replicate 32 0
  extract _ shared := shared
  expandKey (prk : Bytes32) info := prk.toList ++ info
  expandPrefix _ _ := .replicate 16 0
  shared_comm a b := by
    rw [Vector.zipWith_comm]
    simp only [UInt8.add_comm]
  ephemeralKey_ok h := by cases h; rfl
  agree_ok h := by cases h; rfl
  sha256_ok h := by cases h; rfl
  extract_ok h := by cases h; rfl
  expandKey_ok h := by cases h; rfl
  expandPrefix_ok h := by cases h; rfl

def mockNaming : Naming MockIdentity where
  idOf := IdentityId.mk
  idOf_injective _ _ h := by cases h; rfl
  identify_ok h := by cases h; rfl
  publicIdentity_ok h := by cases h; rfl

def MockCrypto.trusting (entropy : Bytes32) (signatures : List Signature) : MockCrypto where
  entropy
  accepts key m _ := signatures.any fun s => s.key = key ∧ s.message.bytes = m

theorem MockCrypto.trusting_unforged (honest : Set Bytes32) (entropy : Bytes32)
    (signatures : List Signature) (frame : WireFrame) :
    Network.Unforged honest signatures frame (MockCrypto.trusting entropy signatures) := by
  intro auth key m _ _ hv
  have ha := MockCrypto.verdict_ok.1 hv
  simpa [trusting] using ha

def MockIdentity.hello (own : UInt8) : Hello :=
  ⟨.replicate 32 own, .replicate 32 own, .replicate 32 own⟩

namespace Network

def mockInstance (role : ConnectionRole) (own peer : UInt8) : Instance MockCrypto where
  handshake := {
    role
    expected := .known ⟨.replicate 32 peer⟩
    localIdentity := ⟨.replicate 32 own⟩
    localHello := MockIdentity.hello own
    secret := some (Vector.replicate 32 own : Bytes32) }

def mockExchange (n : Network MockCrypto) (i : Nat) (kind : FrameType) (payload : List UInt8) :
    Network MockCrypto :=
  match n.instances[i]?, rawFrame kind payload with
  | some x, .ok frame =>
    let y : Instance MockCrypto := { x with handshake := (x.handshake.sent kind).2 }
    let n : Network MockCrypto := { n with instances := n.instances.set i y }
    n.deliver MockIdentity.key i y frame ⟨x.handshake.localHello.identityPublicKey⟩
      (.trusting (.replicate 32 0) n.signatures)
  | _, _ => n

abbrev MockReach (n n' : Network MockCrypto) : Prop :=
  ReflTransGen (Step MockIdentity.key Set.univ) n n'

theorem mockInstance_reach (n : Network MockCrypto) (role : ConnectionRole) (own peer : UInt8) :
    n.MockReach { n with instances := n.instances ++ [mockInstance role own peer] } := by
  obtain ⟨frame, hf, -⟩ := rawFrame_eq .hello (MockIdentity.hello own).encode rfl
    (by simp [maxPayloadBytes])
  have hb : Handshake.begin role (.known ⟨.replicate 32 peer⟩)
      (MockIdentity.mk (.replicate 32 own)) { entropy := .replicate 32 own : MockCrypto } =
      (.ok ((mockInstance role own peer).handshake, frame), { entropy := .replicate 32 own }) := by
    simp only [Handshake.begin, Identity.publicIdentity, Cryptography.ephemeralKey,
      Cryptography.randomNonce]
    rw [show Hello.mk (.replicate 32 own) (.replicate 32 own) (.replicate 32 own) =
      MockIdentity.hello own from rfl, hf]
    rfl
  exact .single (.begin hb)

theorem mockExchange_reach (n : Network MockCrypto) (i : Nat) (kind : FrameType)
    (payload : List UInt8) : n.MockReach (n.mockExchange i kind payload) := by
  simp only [mockExchange]
  split
  case h_1 x frame hx _ =>
    refine .tail (.single (.sent kind hx)) (.deliver ?_ (MockCrypto.trusting_unforged _ _ _ _))
    simp [(List.getElem?_eq_some_iff.1 hx).1]
  case h_2 => exact .refl

def mockRun : Network MockCrypto :=
  ((((({ instances := [mockInstance .initiator 1 2, mockInstance .acceptor 2 1] } :
    Network MockCrypto).mockExchange 0 .hello (MockIdentity.hello 2).encode).mockExchange
      1 .hello (MockIdentity.hello 1).encode).mockExchange
        0 .auth (.replicate 64 0)).mockExchange
          1 .auth (.replicate 64 0))

theorem mockRun_reach : MockReach {} mockRun :=
  .trans (mockInstance_reach _ .initiator 1 2) <| .trans (mockInstance_reach _ .acceptor 2 1) <|
    .trans (mockExchange_reach _ _ _ _) <| .trans (mockExchange_reach _ _ _ _) <|
    .trans (mockExchange_reach _ _ _ _) (mockExchange_reach _ _ _ _)

theorem mockRun_authenticated {x : Instance MockCrypto} (hx : x ∈ mockRun.instances) :
    x.handshake.isAuthenticated = true := by
  have ha : ∀ b ∈ mockRun.instances.map (·.handshake.isAuthenticated), b = true := by
    decide +kernel
  exact ha _ (List.mem_map_of_mem hx)

end Network

theorem handshake_agreement_mock : ∃ x, Network.mockRun.instances[0]? = some x ∧
    ∃ (j : Nat) (y : Instance MockCrypto), Network.mockRun.instances[j]? = some y ∧
      y.handshake.role = x.handshake.role.opposite ∧
      ∃ k k', x.sessionKeys = some k ∧ y.sessionKeys = some k' ∧ k.send = k'.receive := by
  have hlen : 0 < Network.mockRun.instances.length := by decide +kernel
  have hx := List.getElem?_eq_getElem hlen
  obtain ⟨r, id, -, -, -, h⟩ := handshake_agreement mockKeySchedule mockNaming MockIdentity.key
    Set.univ Network.mockRun_reach hx (Network.mockRun_authenticated (List.getElem_mem hlen))
  obtain ⟨j, y, _, _, hy, hrole, -, -, -, -, -, -, hk⟩ := h trivial
  obtain ⟨k, k', hk, hk', hs, -⟩ := hk (Network.mockRun_authenticated (List.mem_of_getElem? hy))
  exact ⟨_, hx, j, y, hy, hrole, k, k', hk, hk', hs⟩

end TalkSphere
