import TalkSphere.Control
import TalkSphere.Ports

/-! HELLO and AUTH payloads, and the transcript both sides sign. Every field has
a fixed place, so the bytes determine the fields. -/

namespace TalkSphere

inductive HandshakePayloadError
  | length (expected actual : Nat)
  | selector (offset : Nat) (value : UInt8)
  deriving DecidableEq, Repr

structure Hello where
  identityPublicKey : Bytes32
  ephemeralPublicKey : Bytes32
  nonce : Bytes32
  deriving DecidableEq, Repr

/-- `count` bytes from `start` on. -/
def bytesAt (bytes : List UInt8) (start count : Nat) : Vector UInt8 count :=
  Vector.ofFn fun i => bytes.getD (start + i) 0

theorem bytesAt_eq {n start : Nat} {bytes : List UInt8} {v : Vector UInt8 n}
    (before after : List UInt8) (hb : bytes = before ++ (v.toList ++ after))
    (hs : before.length = start) : bytesAt bytes start n = v := by
  subst hb hs
  apply Vector.ext
  intro i hi
  simp [bytesAt, List.getElem?_append]

theorem bytesAt_toList {bytes : List UInt8} {start count : Nat} (h : start + count ≤ bytes.length) :
    (bytesAt bytes start count).toList = (bytes.drop start).take count := by
  apply List.ext_getElem
  · simp only [Vector.length_toList, List.length_take, List.length_drop]
    omega
  · intro i hi _
    simp only [Vector.length_toList] at hi
    simp [bytesAt, List.getD_eq_getElem?_getD, List.getElem?_eq_getElem (show start + i < bytes.length by omega)]

namespace Hello

def encode (h : Hello) : List UInt8 :=
  [1, 1, 1] ++ h.identityPublicKey.toList ++ [1] ++ h.ephemeralPublicKey.toList ++ h.nonce.toList

def decode (bytes : List UInt8) : Except HandshakePayloadError Hello :=
  if bytes.length ≠ 100 then .error (.length 100 bytes.length)
  else match [0, 1, 2, 35].find? fun offset => bytes.getD offset 0 ≠ 1 with
    | some offset => .error (.selector offset (bytes.getD offset 0))
    | none => .ok ⟨bytesAt bytes 3 32, bytesAt bytes 36 32, bytesAt bytes 68 32⟩

@[simp] theorem encode_length (h : Hello) : h.encode.length = 100 := by
  simp [encode]

theorem decode_encode (h : Hello) : decode h.encode = .ok h := by
  have hid : bytesAt h.encode 3 32 = h.identityPublicKey :=
    bytesAt_eq [1, 1, 1] ([1] ++ h.ephemeralPublicKey.toList ++ h.nonce.toList)
      (by simp only [encode, List.append_assoc]) rfl
  have hep : bytesAt h.encode 36 32 = h.ephemeralPublicKey :=
    bytesAt_eq ([1, 1, 1] ++ h.identityPublicKey.toList ++ [1]) h.nonce.toList
      (by simp only [encode, List.append_assoc]) (by simp)
  have hn : bytesAt h.encode 68 32 = h.nonce :=
    bytesAt_eq ([1, 1, 1] ++ h.identityPublicKey.toList ++ [1] ++ h.ephemeralPublicKey.toList) []
      (by simp only [encode, List.append_assoc, List.append_nil]) (by simp)
  have hsel : ([0, 1, 2, 35].find? fun offset => h.encode.getD offset 0 ≠ 1) = none := by
    simp [encode]
  rw [decode, if_neg (by simp), hsel]
  simp only [hid, hep, hn]

theorem encode_of_decode {bytes : List UInt8} {h : Hello} (hd : decode bytes = .ok h) :
    h.encode = bytes := by
  simp only [decode] at hd
  split at hd
  case isTrue => simp at hd
  case isFalse hl =>
    split at hd
    case h_1 => simp at hd
    case h_2 hsel =>
      obtain rfl := Except.ok.inj hd
      have hl : bytes.length = 100 := not_not.1 hl
      have hone : ∀ offset ∈ [0, 1, 2, 35], bytes.getD offset 0 = 1 := by
        simpa using hsel
      have hcons : ∀ offset ∈ [0, 1, 2, 35], 1 :: bytes.drop (offset + 1) = bytes.drop offset := by
        intro offset hm
        have hlt : offset < bytes.length := by
          simp only [List.mem_cons, List.not_mem_nil, or_false] at hm
          omega
        rw [List.drop_eq_getElem_cons hlt, ← hone offset hm, List.getD_eq_getElem?_getD,
          List.getElem?_eq_getElem hlt, Option.getD_some]
      have hwin : ∀ start, (bytes.drop start).take 32 ++ bytes.drop (start + 32) = bytes.drop start :=
        fun start => by rw [← List.drop_drop, List.take_append_drop]
      have hlast : (bytes.drop 68).take 32 = bytes.drop 68 :=
        List.take_of_length_le (by simp only [List.length_drop]; omega)
      simp only [encode, bytesAt_toList (show 3 + 32 ≤ bytes.length by omega),
        bytesAt_toList (show 36 + 32 ≤ bytes.length by omega),
        bytesAt_toList (show 68 + 32 ≤ bytes.length by omega), List.append_assoc, hlast]
      calc [1, 1, 1] ++ ((bytes.drop 3).take 32 ++ ([1] ++ ((bytes.drop 36).take 32 ++ bytes.drop 68)))
          = [1, 1, 1] ++ ((bytes.drop 3).take 32 ++ (1 :: bytes.drop 36)) := by
            rw [hwin 36, List.singleton_append]
        _ = 1 :: 1 :: 1 :: bytes.drop 3 := by
            rw [hcons 35 (by simp), hwin 3]; rfl
        _ = bytes := by
            rw [hcons 2 (by simp), hcons 1 (by simp), hcons 0 (by simp), List.drop_zero]

theorem encode_inj {h h' : Hello} (he : h.encode = h'.encode) : h = h' := by
  simp only [encode, List.append_assoc] at he
  obtain ⟨-, he⟩ := List.append_inj he rfl
  obtain ⟨hid, he⟩ := List.append_inj he (by simp)
  obtain ⟨-, he⟩ := List.append_inj he rfl
  obtain ⟨hep, hn⟩ := List.append_inj he (by simp)
  cases h
  cases h'
  simp only [Vector.toList_inj] at hid hep hn
  simp only [hid, hep, hn]

end Hello

structure Auth where
  signature : Vector UInt8 64
  deriving DecidableEq, Repr

namespace Auth

def decode (bytes : List UInt8) : Except HandshakePayloadError Auth :=
  if bytes.length = 64 then .ok ⟨bytesAt bytes 0 64⟩ else .error (.length 64 bytes.length)

def encode (a : Auth) : List UInt8 := a.signature.toList

@[simp] theorem encode_length (a : Auth) : a.encode.length = 64 := by
  simp [encode]

theorem decode_encode (a : Auth) : decode a.encode = .ok a := by
  have hs : bytesAt a.encode 0 64 = a.signature :=
    bytesAt_eq [] [] (by simp [encode]) rfl
  rw [decode, if_pos a.encode_length, hs]

theorem encode_of_decode {bytes : List UInt8} {a : Auth} (hd : decode bytes = .ok a) :
    a.encode = bytes := by
  simp only [decode] at hd
  split_ifs at hd with hl
  obtain rfl := Except.ok.inj hd
  rw [encode, bytesAt_toList (by omega), List.drop_zero, ← hl, List.take_length]

end Auth

/-- The two complete HELLO payloads, initiator first, each behind its length. -/
structure Transcript where
  bytes : List UInt8
  length_eq : bytes.length = 208
  deriving DecidableEq

def ConnectionRole.label : ConnectionRole → UInt8
  | .initiator => 1
  | .acceptor => 2

/-- The text of an authentication message without its role and transcript. -/
def authenticationDomain : List UInt8 := utf8 "CR2SE-NETWORK-AUTH-V1"

namespace Transcript

def new (initiator acceptor : Hello) : Transcript where
  bytes := BigEndian.encode 4 100 ++ initiator.encode ++ BigEndian.encode 4 100 ++ acceptor.encode
  length_eq := by simp

def authentication (t : Transcript) (role : ConnectionRole) : AuthenticationMessage :=
  ⟨authenticationDomain ++ [0, role.label] ++ t.bytes⟩

def sign {ι : Type} [Identity ι] (t : Transcript) (role : ConnectionRole) (identity : ι) :
    Except DependencyError Auth × ι :=
  match Identity.signAuthentication identity (t.authentication role) with
  | (.error e, identity) => (.error e, identity)
  | (.ok signature, identity) => (.ok ⟨signature⟩, identity)

def verify {γ : Type} [Cryptography γ] (t : Transcript) (role : ConnectionRole)
    (publicKey : Bytes32) (auth : Auth) (crypto : γ) : Except DependencyError Unit :=
  Cryptography.verifySignature crypto publicKey (t.authentication role).bytes auth.signature

theorem new_inj {i a i' a' : Hello} (h : new i a = new i' a') : i = i' ∧ a = a' := by
  have hb := congrArg bytes h
  simp only [new, List.append_assoc] at hb
  obtain ⟨-, hb⟩ := List.append_inj hb rfl
  obtain ⟨hi, hb⟩ := List.append_inj hb (by simp)
  obtain ⟨-, ha⟩ := List.append_inj hb rfl
  exact ⟨Hello.encode_inj hi, Hello.encode_inj ha⟩

theorem authentication_inj {t t' : Transcript} {role role' : ConnectionRole}
    (h : t.authentication role = t'.authentication role') : role = role' ∧ t = t' := by
  have hb := congrArg AuthenticationMessage.bytes h
  simp only [authentication, List.append_assoc] at hb
  obtain ⟨-, hb⟩ := List.append_inj hb rfl
  obtain ⟨hr, ht⟩ := List.append_inj hb rfl
  refine ⟨?_, ?_⟩
  · cases role <;> cases role' <;> simp [ConnectionRole.label] at hr ⊢
  · cases t
    cases t'
    simp only at ht
    simp only [ht]

end Transcript

end TalkSphere
