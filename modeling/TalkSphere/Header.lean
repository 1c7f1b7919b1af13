import TalkSphere.BigEndian
import TalkSphere.Api

/-! Version 1 frame headers. A header carries its own validity, so every header
in the model has a bounded payload length and a stream id its type allows. -/

namespace TalkSphere

def version : UInt8 := 1
def headerBytes : Nat := 12
def integrityTagBytes : Nat := 16
def maxPayloadBytes : Nat := 65536

/-- The largest value of the platform size type. -/
def usizeMax : Nat := 2 ^ 64 - 1

def checkedAdd (a b : Nat) : Option Nat :=
  if a + b ≤ usizeMax then some (a + b) else none

theorem checkedAdd_some {a b n : Nat} : checkedAdd a b = some n ↔ n = a + b ∧ n ≤ usizeMax := by
  unfold checkedAdd
  split_ifs with hle
  · rw [Option.some_inj, eq_comm]
    exact ⟨fun h => ⟨h, h ▸ hle⟩, fun h => h.1⟩
  · refine iff_of_false not_false ?_
    rintro ⟨rfl, h⟩
    exact hle h

inductive FrameType
  | hello
  | auth
  | ping
  | pong
  | goAway
  | error
  | open_
  | data
  | end_
  | cancel
  deriving DecidableEq, Repr

def FrameType.code : FrameType → UInt8
  | .hello => 0x01
  | .auth => 0x02
  | .ping => 0x03
  | .pong => 0x04
  | .goAway => 0x05
  | .error => 0x06
  | .open_ => 0x10
  | .data => 0x11
  | .end_ => 0x12
  | .cancel => 0x13

inductive HeaderError
  | invalidLength (actual : Nat)
  | unsupportedVersion (value : UInt8)
  | nonzeroFlags (value : Nat)
  | unknownType (value : UInt8)
  | payloadTooLarge (length : UInt32)
  | invalidStreamId (frameType : FrameType) (streamId : UInt32)
  | sizeOverflow
  deriving DecidableEq, Repr

def FrameType.tryFrom (value : UInt8) : Except HeaderError FrameType :=
  if value = 0x01 then .ok .hello
  else if value = 0x02 then .ok .auth
  else if value = 0x03 then .ok .ping
  else if value = 0x04 then .ok .pong
  else if value = 0x05 then .ok .goAway
  else if value = 0x06 then .ok .error
  else if value = 0x10 then .ok .open_
  else if value = 0x11 then .ok .data
  else if value = 0x12 then .ok .end_
  else if value = 0x13 then .ok .cancel
  else .error (.unknownType value)

/-- Which stream ids a frame type admits; ERROR is used in both scopes. -/
def FrameType.validStreamId : FrameType → UInt32 → Bool
  | .hello, id | .auth, id | .ping, id | .pong, id | .goAway, id => id == 0
  | .open_, id | .data, id | .end_, id | .cancel, id => id != 0
  | .error, _ => true

inductive FrameProtection
  | untagged
  | tagged
  deriving DecidableEq, Repr

/-- The tag bytes a direction adds to each frame. -/
def FrameProtection.overhead : FrameProtection → Nat
  | .untagged => 0
  | .tagged => integrityTagBytes

structure FrameHeader where
  frameType : FrameType
  streamId : UInt32
  payloadLen : UInt32
  payloadLen_le : payloadLen.toNat ≤ maxPayloadBytes
  streamId_valid : frameType.validStreamId streamId = true
  deriving DecidableEq, Repr

namespace FrameHeader

def new (frameType : FrameType) (streamId payloadLen : UInt32) : Except HeaderError FrameHeader :=
  if hl : payloadLen.toNat ≤ maxPayloadBytes then
    if hv : frameType.validStreamId streamId = true then
      .ok ⟨frameType, streamId, payloadLen, hl, hv⟩
    else .error (.invalidStreamId frameType streamId)
  else .error (.payloadTooLarge payloadLen)

def decode (bytes : List UInt8) : Except HeaderError FrameHeader :=
  match bytes with
  | [b0, b1, b2, b3, b4, b5, b6, b7, b8, b9, b10, b11] =>
    if b0 ≠ version then .error (.unsupportedVersion b0)
    else if BigEndian.decode [b2, b3] ≠ 0 then .error (.nonzeroFlags (BigEndian.decode [b2, b3]))
    else
      let payloadLen := UInt32.ofNat (BigEndian.decode [b8, b9, b10, b11])
      if payloadLen.toNat > maxPayloadBytes then .error (.payloadTooLarge payloadLen)
      else match FrameType.tryFrom b1 with
        | .error e => .error e
        | .ok frameType =>
          new frameType (UInt32.ofNat (BigEndian.decode [b4, b5, b6, b7])) payloadLen
  | _ => .error (.invalidLength bytes.length)

def encode (h : FrameHeader) : List UInt8 :=
  [version, h.frameType.code, 0, 0] ++ BigEndian.encode 4 h.streamId.toNat ++
    BigEndian.encode 4 h.payloadLen.toNat

def frameLen (h : FrameHeader) (protection : FrameProtection) : Except HeaderError Nat :=
  match (checkedAdd headerBytes h.payloadLen.toNat).bind (checkedAdd · protection.overhead) with
  | some size => .ok size
  | none => .error .sizeOverflow

end FrameHeader

theorem FrameType.code_of_tryFrom {value : UInt8} {t : FrameType}
    (h : FrameType.tryFrom value = .ok t) : t.code = value := by
  simp only [tryFrom] at h
  repeat' split at h
  all_goals simp only [Except.ok.injEq, reduceCtorEq] at h
  all_goals subst h
  all_goals simp_all [code]

theorem FrameType.tryFrom_code (t : FrameType) : FrameType.tryFrom t.code = .ok t := by
  cases t <;> rfl

namespace FrameHeader

@[simp] theorem encode_length (h : FrameHeader) : h.encode.length = headerBytes := by
  simp [encode, headerBytes]

theorem new_fields (h : FrameHeader) : new h.frameType h.streamId h.payloadLen = .ok h := by
  simp [new, h.payloadLen_le, h.streamId_valid]

theorem frameLen_ok (h : FrameHeader) (protection : FrameProtection) :
    h.frameLen protection = .ok (headerBytes + h.payloadLen.toNat + protection.overhead) := by
  have hl := h.payloadLen_le
  have hp : checkedAdd headerBytes h.payloadLen.toNat = some (headerBytes + h.payloadLen.toNat) :=
    if_pos (by simp only [headerBytes, usizeMax, maxPayloadBytes] at *; omega)
  have ht : ∀ tag, tag ≤ 16 → checkedAdd (headerBytes + h.payloadLen.toNat) tag =
      some (headerBytes + h.payloadLen.toNat + tag) := fun tag _ =>
    if_pos (by simp only [headerBytes, usizeMax, maxPayloadBytes] at *; omega)
  cases protection <;>
    simp [frameLen, hp, ht, integrityTagBytes, FrameProtection.overhead]

theorem four_bytes (n : Nat) : ∃ a b c d, BigEndian.encode 4 n = [a, b, c, d] := by
  match h : BigEndian.encode 4 n, BigEndian.encode_length 4 n with
  | [a, b, c, d], _ => exact ⟨a, b, c, d, rfl⟩

theorem decode_encode (h : FrameHeader) : decode h.encode = .ok h := by
  obtain ⟨a, b, c, d, hid⟩ := four_bytes h.streamId.toNat
  obtain ⟨e, f, g, k, hlen⟩ := four_bytes h.payloadLen.toNat
  have hi : BigEndian.decode [a, b, c, d] = h.streamId.toNat := by
    rw [← hid]; exact BigEndian.decode_encode h.streamId.toNat_lt
  have hl : BigEndian.decode [e, f, g, k] = h.payloadLen.toNat := by
    rw [← hlen]; exact BigEndian.decode_encode h.payloadLen.toNat_lt
  have hb := h.payloadLen_le
  have hz : BigEndian.decode [0, 0] = 0 := rfl
  simp only [encode, hid, hlen, List.cons_append, List.nil_append, decode, hi, hl, hz,
    UInt32.ofNat_toNat, FrameType.tryFrom_code, new_fields, ne_eq, not_true_eq_false, if_false]
  rw [if_neg (by omega)]

theorem encode_inj {h k : FrameHeader} (he : h.encode = k.encode) : h = k := by
  have hd := decode_encode h
  rw [he, decode_encode k] at hd
  exact (Except.ok.inj hd).symm

theorem encode_word (a b c d : UInt8) :
    BigEndian.encode 4 (UInt32.ofNat (BigEndian.decode [a, b, c, d])).toNat = [a, b, c, d] := by
  have hlt := BigEndian.decode_lt [a, b, c, d]
  rw [show 256 ^ [a, b, c, d].length = 2 ^ 32 by norm_num] at hlt
  rw [UInt32.toNat_ofNat', Nat.mod_eq_of_lt hlt]
  exact BigEndian.encode_decode [a, b, c, d]

theorem encode_of_decode {bytes : List UInt8} {h : FrameHeader} (hd : decode bytes = .ok h) :
    h.encode = bytes := by
  simp only [decode] at hd
  split at hd
  case h_2 => simp at hd
  case h_1 b0 b1 b2 b3 b4 b5 b6 b7 b8 b9 b10 b11 =>
    split at hd
    case isTrue => simp at hd
    case isFalse hv =>
      split at hd
      case isTrue => simp at hd
      case isFalse hflags =>
        split at hd
        case isTrue => simp at hd
        case isFalse =>
          split at hd
          case h_1 => simp at hd
          case h_2 t ht =>
            obtain ⟨hz₂, hz₃⟩ : b2 = 0 ∧ b3 = 0 := by
              have hz := BigEndian.encode_decode [b2, b3]
              rw [not_not.1 hflags] at hz
              have he : BigEndian.encode 2 0 = [0, 0] := rfl
              simpa [he, eq_comm] using hz
            simp only [new] at hd
            split at hd
            case isFalse => simp at hd
            case isTrue =>
              split at hd
              case isFalse => simp at hd
              case isTrue =>
                obtain rfl := Except.ok.inj hd
                simp only [encode, encode_word, FrameType.code_of_tryFrom ht, hz₂, hz₃, not_not.1 hv,
                  List.cons_append, List.nil_append]

end FrameHeader

end TalkSphere
