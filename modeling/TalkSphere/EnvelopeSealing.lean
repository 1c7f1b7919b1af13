import Mathlib.Data.Set.Basic
import TalkSphere.Envelope

/-! What encryption and decryption owe each other, for any suite whose agreement commutes and
whose opening accepts exactly what was sealed. -/

namespace TalkSphere.Envelope

open Outcome (bind_ok)

/-! Headers. -/

namespace Header

variable {h : Header} {bytes : List UInt8}

@[simp] theorem fields_length (h : Header) : h.fields.length = contextBytes := by
  simp [fields, contextBytes]

theorem encode_ok : h.encode = .ok bytes ↔
    16 ≤ h.sealedLength.toNat ∧ bytes = h.fields ++ BigEndian.encode 8 h.sealedLength.toNat := by
  unfold encode
  split
  · simp only [reduceCtorEq, false_iff]
    omega
  · rw [Except.ok.injEq]
    constructor
    · rintro rfl
      exact ⟨by omega, rfl⟩
    · rintro ⟨-, rfl⟩
      rfl

theorem encode_length (he : h.encode = .ok bytes) : bytes.length = headerBytes := by
  obtain ⟨-, rfl⟩ := encode_ok.mp he
  simp [contextBytes, headerBytes]

theorem context_eq (he : h.encode = .ok bytes) : context h = .ok h.fields := by
  have htake : bytes.take contextBytes = h.fields := by
    rw [(encode_ok.mp he).2, ← h.fields_length, List.take_left]
  rw [context, he, ← htake]
  rfl

theorem decode_encode (he : h.encode = .ok bytes) : decode bytes = .ok h := by
  have hlength := encode_length he
  obtain ⟨hmin, rfl⟩ := encode_ok.mp he
  generalize hlast : BigEndian.encode 8 h.sealedLength.toNat = last at hlength ⊢
  have hid : bytesAt (h.fields ++ last) 4 32 = h.recipientId :=
    bytesAt_eq [1, 1, 1, 1]
      (h.recipientKey.toList ++ h.ephemeralKey.toList ++ h.nonce.toList ++ last)
      (by simp only [fields, List.append_assoc]) rfl
  have hkey : bytesAt (h.fields ++ last) 36 32 = h.recipientKey :=
    bytesAt_eq ([1, 1, 1, 1] ++ h.recipientId.toList)
      (h.ephemeralKey.toList ++ h.nonce.toList ++ last)
      (by simp only [fields, List.append_assoc]) (by simp)
  have hephemeral : bytesAt (h.fields ++ last) 68 32 = h.ephemeralKey :=
    bytesAt_eq ([1, 1, 1, 1] ++ h.recipientId.toList ++ h.recipientKey.toList)
      (h.nonce.toList ++ last) (by simp only [fields, List.append_assoc]) (by simp)
  have hnonce : bytesAt (h.fields ++ last) 100 24 = h.nonce :=
    bytesAt_eq ([1, 1, 1, 1] ++ h.recipientId.toList ++ h.recipientKey.toList ++
      h.ephemeralKey.toList) last (by simp only [fields, List.append_assoc]) (by simp)
  have hcount : UInt64.ofNat (BigEndian.decode (bytesAt (h.fields ++ last) 124 8).toList) =
      h.sealedLength := by
    have hdrop : (h.fields ++ last).drop 124 = last := by
      rw [← show h.fields.length = 124 from h.fields_length, List.drop_left]
    have hfull : last.length = 8 := by simp [← hlast]
    rw [bytesAt_toList (by rw [hlength]; decide), hdrop, ← hfull, List.take_length, ← hlast,
      BigEndian.decode_encode (by exact h.sealedLength.toNat_lt)]
    simp
  have htake : (h.fields ++ last).take 4 = [1, 1, 1, 1] := by simp [fields]
  rw [decode, if_neg (by simp [hlength, htake])]
  simp only [hid, hkey, hephemeral, hnonce, hcount]
  exact if_neg (by omega)

theorem decode_ok (hd : decode bytes = .ok h) :
    bytes.length = headerBytes ∧ 16 ≤ h.sealedLength.toNat := by
  unfold decode at hd
  split at hd
  · cases hd
  case isFalse hgood =>
    dsimp only at hd
    split at hd
    · cases hd
    case isFalse hmin =>
      obtain rfl := Except.ok.inj hd
      exact ⟨not_not.mp (not_or.mp hgood).1, Nat.le_of_not_lt hmin⟩

end Header

/-! Lengths. -/

section

variable {limits : ResourceLimits} {sealedLength plaintextLength : UInt64} {total : Nat}

theorem validateLengths_ok : validateLengths sealedLength limits = .ok total ↔
    16 ≤ sealedLength.toNat ∧ total = sealedLength.toNat + headerBytes ∧ total < 2 ^ 64 ∧
      total ≤ limits.maximumObjectBytes ∧
      sealedLength.toNat - 16 ≤ limits.maximumPlaintextBytes := by
  have hhost : usizeMax = 2 ^ 64 - 1 := rfl
  unfold validateLengths
  simp only [hhost]
  constructor
  · intro h
    split_ifs at h with hmin hsum husize hlimits
    obtain rfl := Except.ok.inj h
    omega
  · rintro ⟨hmin, rfl, hsum, hobject, hplaintext⟩
    rw [if_neg (by omega), if_neg (by omega), if_neg (by omega), if_neg (by omega)]

end

/-! Objects. -/

theorem parse_ok {bytes : List UInt8} {limits : ResourceLimits} {parsed : ParsedObject} :
    parse bytes limits = .ok parsed ↔ bytes.length ≤ limits.maximumObjectBytes ∧
      Header.decode (bytes.take headerBytes) = .ok parsed.header ∧
      objectLength parsed.header limits = .ok bytes.length ∧
      parsed.encodedHeader = bytes.take headerBytes ∧ parsed.sealedBody = bytes.drop headerBytes := by
  unfold parse
  constructor
  · intro h
    split at h
    · cases h
    split at h
    · cases h
    case isFalse hmin hmax =>
      obtain ⟨header, hheader, h⟩ := bind_ok.mp h
      obtain ⟨length, hlength, h⟩ := bind_ok.mp h
      split at h
      · cases h
      case isFalse heq =>
        obtain rfl := Except.ok.inj h
        exact ⟨Nat.le_of_not_lt hmax, hheader, not_not.mp heq ▸ hlength, rfl, rfl⟩
  · rintro ⟨hmax, hheader, hlength, hencoded, hbody⟩
    obtain ⟨htake, -⟩ := Header.decode_ok hheader
    have hmin : headerBytes ≤ bytes.length := by
      rw [List.length_take] at htake
      omega
    rw [if_neg (Nat.not_lt.mpr hmin), if_neg (Nat.not_lt.mpr hmax)]
    refine bind_ok.mpr ⟨parsed.header, hheader, bind_ok.mpr ⟨bytes.length, hlength, ?_⟩⟩
    rw [if_neg (not_not.mpr rfl), ← hencoded, ← hbody]

/-! One sealed unit. -/

def Suite.Accepts (suite : Suite) (sealed : Set SealedUnit) : Prop :=
  ∀ key nonce associated body tag plaintext,
    suite.decrypt key nonce associated body tag = some plaintext ↔
      ⟨key, nonce, associated, plaintext, body ++ tag.toList⟩ ∈ sealed

def Suite.Commutes (suite : Suite) : Prop :=
  ∀ a b, suite.diffieHellman a (suite.publicKey b) = suite.diffieHellman b (suite.publicKey a)

section

variable {suite : Suite} {key : Bytes32} {nonce : Vector UInt8 24}
  {plaintext associated body : List UInt8} {maximum : Nat}

theorem sealBody_ok (h : suite.sealBody key nonce plaintext associated maximum = .ok body) :
    body.length = plaintext.length + 16 ∧ body.length ≤ maximum ∧ associated.length ≤ maximum := by
  unfold Suite.sealBody at h
  split at h
  · cases h
  case h_2 total htotal =>
    have hsum := (checkedAdd_some.mp htotal).1
    split at h
    · cases h
    case isFalse hlimits =>
      split at h
      · cases h
      case h_2 c t hencrypt =>
        obtain rfl := Except.ok.inj h
        have hlength := suite.encrypt_length hencrypt
        rw [List.length_append, Vector.length_toList]
        omega

theorem openBody_iff {sealed : Set SealedUnit} (haccepts : suite.Accepts sealed) :
    suite.openBody key nonce body associated maximum = .ok plaintext ↔
      body.length ≤ maximum ∧ associated.length ≤ maximum ∧ 16 ≤ body.length ∧
        ⟨key, nonce, associated, plaintext, body⟩ ∈ sealed := by
  unfold Suite.openBody
  split
  case isTrue hlimits =>
    simp only [reduceCtorEq, false_iff]
    omega
  case isFalse hlimits =>
    split
    case isTrue hshort =>
      simp only [reduceCtorEq, false_iff]
      omega
    case isFalse hlong =>
      have hsplit : body.take (body.length - 16) ++ (bytesAt body (body.length - 16) 16).toList =
          body := by
        have hend : body.length - 16 + 16 = body.length := by omega
        have hall : (body.drop (body.length - 16)).take 16 = body.drop (body.length - 16) :=
          List.take_of_length_le (by rw [List.length_drop]; omega)
        rw [bytesAt_toList hend.le, hall, List.take_append_drop]
      have hopen := haccepts key nonce associated (body.take (body.length - 16))
        (bytesAt body (body.length - 16) 16)
      simp only [hsplit] at hopen
      have hbounds : body.length ≤ maximum ∧ associated.length ≤ maximum ∧ 16 ≤ body.length := by
        omega
      simp only [hbounds, true_and, ← hopen]
      cases suite.decrypt key nonce associated (body.take (body.length - 16))
        (bytesAt body (body.length - 16) 16) <;> simp

theorem agree_ok {secret remote shared : Bytes32} : suite.agree secret remote = .ok shared ↔
    shared = suite.diffieHellman secret remote ∧ shared ≠ .replicate 32 0 := by
  unfold Suite.agree
  dsimp only
  split
  case isTrue hzero =>
    simp only [reduceCtorEq, false_iff]
    rintro ⟨rfl, hne⟩
    exact hne hzero
  case isFalse hne =>
    rw [Except.ok.injEq]
    constructor
    · rintro rfl
      exact ⟨rfl, hne⟩
    · rintro ⟨rfl, -⟩
      rfl

theorem validate_ok {credential : RecipientCredential} {recipient : ValidatedRecipient}
    (h : suite.validate credential = .ok recipient) :
    recipient = ⟨credential.identityId, credential.encryptionPublicKey⟩ := by
  obtain ⟨id, -, h⟩ := bind_ok.mp h
  split at h
  · cases h
  · obtain ⟨⟨⟩, -, h⟩ := bind_ok.mp h
    exact (Except.ok.inj h).symm

end

/-! Encryption. -/

structure Made (suite : Suite) (request : EncryptRequest) (u : SealedUnit) (header : Header)
    (ephemeral shared : Bytes32) : Prop where
  recipientId : header.recipientId = request.recipient.identityId
  recipientKey : header.recipientKey = request.recipient.encryptionPublicKey
  ephemeralKey : header.ephemeralKey = suite.publicKey ephemeral
  nonce : header.nonce = u.nonce
  encoded : header.encode = .ok u.associated
  lengths : ∃ total, objectLength header request.limits = .ok total
  plaintext : u.plaintext = request.plaintext
  sealedLength : header.sealedLength.toNat = u.plaintext.length + 16
  agreed : suite.agree ephemeral header.recipientKey = .ok shared
  key : suite.derive shared header.fields = .ok u.key
  body : suite.sealBody u.key u.nonce u.plaintext u.associated
    request.limits.maximumObjectBytes = .ok u.body

theorem Made.decrypt {suite : Suite} {sealed : Set SealedUnit} (hcommutes : suite.Commutes)
    (haccepts : suite.Accepts sealed) {request : EncryptRequest} {u : SealedUnit} {header : Header}
    {ephemeral shared privateKey : Bytes32} (h : Made suite request u header ephemeral shared)
    (hsealed : u ∈ sealed)
    (hprivate : suite.publicKey privateKey = request.recipient.encryptionPublicKey) :
    decrypt suite ⟨u.object, request.recipient.identityId, request.recipient.encryptionPublicKey,
      privateKey, request.limits⟩ = .ok request.plaintext := by
  obtain ⟨hbody, hbodymax, hheadermax⟩ := sealBody_ok h.body
  have hheader := Header.encode_length h.encoded
  obtain ⟨total, htotal⟩ := h.lengths
  obtain ⟨-, hsum, -, hmax, -⟩ := validateLengths_ok.mp htotal
  have hlength : u.object.length = total := by
    have hcount := h.sealedLength
    rw [SealedUnit.object, List.length_append, hbody, hheader]
    omega
  have htake : u.object.take headerBytes = u.associated := by
    rw [← hheader, SealedUnit.object, List.take_left]
  have hdrop : u.object.drop headerBytes = u.body := by
    rw [← hheader, SealedUnit.object, List.drop_left]
  have hparse : parse u.object request.limits = .ok ⟨header, u.associated, u.body⟩ := by
    refine parse_ok.mpr ⟨hlength ▸ hmax, ?_, hlength ▸ htotal, htake.symm, hdrop.symm⟩
    rw [htake]
    exact Header.decode_encode h.encoded
  have hagree : suite.agree privateKey header.ephemeralKey = .ok shared := by
    obtain ⟨hvalue, hne⟩ := agree_ok.mp h.agreed
    rw [h.recipientKey, ← hprivate, ← hcommutes, ← h.ephemeralKey] at hvalue
    exact agree_ok.mpr ⟨hvalue, hne⟩
  refine bind_ok.mpr ⟨_, hparse, ?_⟩
  rw [if_neg (by simp [h.recipientId, h.recipientKey])]
  refine bind_ok.mpr ⟨shared, hagree, bind_ok.mpr ⟨header.fields, Header.context_eq h.encoded, ?_⟩⟩
  have hmin : 16 ≤ u.body.length := by omega
  refine bind_ok.mpr ⟨u.key, h.key, (openBody_iff haccepts).mpr ⟨hbodymax, hheadermax, hmin, ?_⟩⟩
  rw [h.nonce, ← h.plaintext]
  exact hsealed

/-! Decryption. -/

def digest (bytes : List UInt8) : UInt8 := bytes.foldl (fun a b => a * 3 + b + 1) 7

def mask (key : Bytes32) (nonce : Vector UInt8 24) (bytes : List UInt8) : List UInt8 :=
  bytes.map (· ^^^ digest (key.toList ++ nonce.toList))

end TalkSphere.Envelope
