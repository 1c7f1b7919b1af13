import TalkSphere.Header

/-! Control payloads: the error registry, the bounded diagnostic shared by
ERROR, CANCEL and GOAWAY, and the PING token. -/

namespace TalkSphere

def maxReasonBytes : Nat := 1024

inductive ErrorCode
  | noError
  | protocolError
  | authenticationFailed
  | frameSizeError
  | unsupportedProtocol
  | streamStateError
  | refusedStream
  | internalError
  | idExhausted
  | cancelled
  | resourceLimit
  deriving DecidableEq, Repr

inductive PayloadError
  | tooShort (minimum actual : Nat)
  | lengthMismatch (expected actual : Nat)
  | reasonTooLong (actual : Nat)
  | invalidUtf8
  | byteOrderMark
  | unknownCode (value : Nat)
  | noErrorForbidden
  deriving DecidableEq, Repr

def ErrorCode.code : ErrorCode → Nat
  | .noError => 0
  | .protocolError => 1
  | .authenticationFailed => 2
  | .frameSizeError => 3
  | .unsupportedProtocol => 4
  | .streamStateError => 5
  | .refusedStream => 6
  | .internalError => 7
  | .idExhausted => 8
  | .cancelled => 9
  | .resourceLimit => 10

def ErrorCode.tryFrom : Nat → Except PayloadError ErrorCode
  | 0 => .ok .noError
  | 1 => .ok .protocolError
  | 2 => .ok .authenticationFailed
  | 3 => .ok .frameSizeError
  | 4 => .ok .unsupportedProtocol
  | 5 => .ok .streamStateError
  | 6 => .ok .refusedStream
  | 7 => .ok .internalError
  | 8 => .ok .idExhausted
  | 9 => .ok .cancelled
  | 10 => .ok .resourceLimit
  | value => .error (.unknownCode value)

@[simp] theorem ErrorCode.tryFrom_code (c : ErrorCode) : ErrorCode.tryFrom c.code = .ok c := by
  cases c <;> rfl

theorem ErrorCode.code_lt (c : ErrorCode) : c.code < 256 ^ 2 := by
  cases c <;> decide

theorem ErrorCode.code_of_tryFrom {value : Nat} {c : ErrorCode}
    (h : ErrorCode.tryFrom value = .ok c) : c.code = value := by
  unfold tryFrom at h
  split at h <;> simp only [Except.ok.injEq, reduceCtorEq] at h <;> subst h <;> rfl

def utf8 (text : String) : List UInt8 := text.toUTF8.data.toList

@[simp] theorem utf8_length (text : String) : (utf8 text).length = text.utf8ByteSize := rfl

@[simp] theorem fromUTF8_utf8 (text : String) :
    String.fromUTF8? ⟨(utf8 text).toArray⟩ = some text := by
  simp only [String.fromUTF8?, utf8, Array.toArray_toList]
  exact dif_pos text.isValidUTF8

theorem utf8_of_fromUTF8 {bytes : List UInt8} {text : String}
    (h : String.fromUTF8? ⟨bytes.toArray⟩ = some text) : utf8 text = bytes := by
  simp only [String.fromUTF8?] at h
  split at h
  case isFalse => simp at h
  case isTrue =>
    obtain rfl := Option.some.inj h
    simp [utf8, String.fromUTF8]

structure Diagnostic where
  code : ErrorCode
  reason : String
  deriving DecidableEq, Repr

namespace Diagnostic

def new (code : ErrorCode) (reason : String) (allowNoError : Bool) :
    Except PayloadError Diagnostic :=
  if reason.utf8ByteSize > maxReasonBytes then .error (.reasonTooLong reason.utf8ByteSize)
  else if reason.toList.head? = some '﻿' then .error .byteOrderMark
  else if code = .noError ∧ allowNoError = false then .error .noErrorForbidden
  else .ok ⟨code, reason⟩

def decode (payload : List UInt8) (allowNoError : Bool) : Except PayloadError Diagnostic :=
  match payload with
  | b0 :: b1 :: b2 :: b3 :: text =>
    let code := BigEndian.decode [b0, b1]
    let reasonLen := BigEndian.decode [b2, b3]
    if reasonLen > maxReasonBytes then .error (.reasonTooLong reasonLen)
    else if payload.length ≠ 4 + reasonLen then
      .error (.lengthMismatch (4 + reasonLen) payload.length)
    else match String.fromUTF8? ⟨text.toArray⟩ with
      | none => .error .invalidUtf8
      | some reason =>
        match ErrorCode.tryFrom code with
        | .error e => .error e
        | .ok code => new code reason allowNoError
  | _ => .error (.tooShort 4 payload.length)

/-- The bytes `append_to` writes. -/
def encode (d : Diagnostic) : List UInt8 :=
  BigEndian.encode 2 d.code.code ++ BigEndian.encode 2 d.reason.utf8ByteSize ++ utf8 d.reason

end Diagnostic

structure ErrorPayload where
  diagnostic : Diagnostic
  deriving DecidableEq, Repr

namespace ErrorPayload

def new (code : ErrorCode) (reason : String) : Except PayloadError ErrorPayload :=
  (Diagnostic.new code reason false).map ErrorPayload.mk

def decode (payload : List UInt8) : Except PayloadError ErrorPayload :=
  (Diagnostic.decode payload false).map ErrorPayload.mk

def encode (p : ErrorPayload) : List UInt8 := p.diagnostic.encode

def code (p : ErrorPayload) : ErrorCode := p.diagnostic.code

end ErrorPayload

structure GoAway where
  lastAcceptedRemoteStreamId : UInt32
  diagnostic : Diagnostic
  deriving DecidableEq, Repr

namespace GoAway

def new (last : UInt32) (code : ErrorCode) (reason : String) : Except PayloadError GoAway :=
  (Diagnostic.new code reason true).map (GoAway.mk last)

def decode (payload : List UInt8) : Except PayloadError GoAway :=
  if payload.length < 8 then .error (.tooShort 8 payload.length)
  else
    let last := UInt32.ofNat (BigEndian.decode (payload.take 4))
    match Diagnostic.decode (payload.drop 4) true with
    | .ok diagnostic => .ok ⟨last, diagnostic⟩
    | .error (.lengthMismatch expected actual) =>
      .error (.lengthMismatch (expected + 4) (actual + 4))
    | .error other => .error other

def encode (g : GoAway) : List UInt8 :=
  BigEndian.encode 4 g.lastAcceptedRemoteStreamId.toNat ++ g.diagnostic.encode

def code (g : GoAway) : ErrorCode := g.diagnostic.code

end GoAway

def PingToken.decode (payload : List UInt8) : Except PayloadError Token :=
  if h : payload.length = 8 then .ok ⟨payload.toArray, by simpa using h⟩
  else .error (.lengthMismatch 8 payload.length)

def PingToken.encode (token : Token) : List UInt8 := token.toList

theorem Diagnostic.new_eq {code : ErrorCode} {reason : String} {allowNoError : Bool}
    {d : Diagnostic} (h : Diagnostic.new code reason allowNoError = .ok d) : d = ⟨code, reason⟩ := by
  simp only [Diagnostic.new] at h
  split_ifs at h
  exact (Except.ok.inj h).symm

theorem Diagnostic.reason_size {code : ErrorCode} {reason : String} {allowNoError : Bool}
    {d : Diagnostic} (h : Diagnostic.new code reason allowNoError = .ok d) :
    reason.utf8ByteSize ≤ maxReasonBytes := by
  simp only [Diagnostic.new] at h
  split_ifs at h with hl
  omega

theorem Diagnostic.decode_encode {code : ErrorCode} {reason : String} {allowNoError : Bool}
    {d : Diagnostic} (h : Diagnostic.new code reason allowNoError = .ok d) :
    Diagnostic.decode d.encode allowNoError = .ok d := by
  have hl := Diagnostic.reason_size h
  have hd := Diagnostic.new_eq h
  subst hd
  have hc : BigEndian.decode (BigEndian.encode 2 code.code) = code.code :=
    BigEndian.decode_encode code.code_lt
  have hr : BigEndian.decode (BigEndian.encode 2 reason.utf8ByteSize) = reason.utf8ByteSize :=
    BigEndian.decode_encode (by simp only [maxReasonBytes] at hl; omega)
  obtain ⟨a, b, hab⟩ := BigEndian.two_bytes code.code
  obtain ⟨e, f, hef⟩ := BigEndian.two_bytes reason.utf8ByteSize
  rw [hab] at hc
  rw [hef] at hr
  simp only [Diagnostic.encode, hab, hef, List.cons_append, List.nil_append, Diagnostic.decode, hc,
    hr, List.length_cons, utf8_length, fromUTF8_utf8, ErrorCode.tryFrom_code, h]
  rw [if_neg (by omega), if_neg (by omega)]

theorem Diagnostic.encode_of_decode {payload : List UInt8} {allowNoError : Bool} {d : Diagnostic}
    (h : Diagnostic.decode payload allowNoError = .ok d) :
    d.encode = payload ∧ Diagnostic.new d.code d.reason allowNoError = .ok d := by
  simp only [Diagnostic.decode] at h
  split at h
  case h_2 => simp at h
  case h_1 b0 b1 b2 b3 text =>
    split at h
    case isTrue => simp at h
    case isFalse =>
      split at h
      case isTrue => simp at h
      case isFalse hlen =>
        split at h
        case h_1 => simp at h
        case h_2 reason ht =>
          split at h
          case h_1 => simp at h
          case h_2 code hc =>
            have hd := Diagnostic.new_eq h
            subst hd
            refine ⟨?_, h⟩
            have hu := utf8_of_fromUTF8 ht
            have hr : reason.utf8ByteSize = BigEndian.decode [b2, b3] := by
              rw [← utf8_length, hu]
              simp only [List.length_cons] at hlen
              omega
            simp only [Diagnostic.encode, ErrorCode.code_of_tryFrom hc, hr, hu]
            have h₁ := BigEndian.encode_decode [b0, b1]
            have h₂ := BigEndian.encode_decode [b2, b3]
            simp only [List.length_cons, List.length_nil] at h₁ h₂
            simp only [h₁, h₂, List.cons_append, List.nil_append]

/-- What a payload written without diagnostic text looks like: the code and a
zero length. Session and connection output uses no other form. -/
theorem Diagnostic.new_blank {code : ErrorCode} {allowNoError : Bool}
    (h : code ≠ .noError ∨ allowNoError = true) :
    Diagnostic.new code "" allowNoError = .ok ⟨code, ""⟩ := by
  rcases h with h | h <;> simp [Diagnostic.new, h]

theorem Diagnostic.encode_blank_length (code : ErrorCode) :
    (Diagnostic.encode ⟨code, ""⟩).length = 4 := by
  simp [Diagnostic.encode, utf8]

theorem ErrorPayload.decode_encode {code : ErrorCode} {reason : String} {p : ErrorPayload}
    (h : ErrorPayload.new code reason = .ok p) : ErrorPayload.decode p.encode = .ok p := by
  simp only [ErrorPayload.new] at h
  cases hd : Diagnostic.new code reason false with
  | error e => simp [hd, Except.map] at h
  | ok d =>
    simp only [hd, Except.map, Except.ok.injEq] at h
    subst h
    simp only [ErrorPayload.decode, ErrorPayload.encode, Diagnostic.decode_encode hd, Except.map]

theorem ErrorPayload.encode_of_decode {payload : List UInt8} {p : ErrorPayload}
    (h : ErrorPayload.decode payload = .ok p) :
    p.encode = payload ∧ ErrorPayload.new p.diagnostic.code p.diagnostic.reason = .ok p := by
  simp only [ErrorPayload.decode] at h
  cases hd : Diagnostic.decode payload false with
  | error e => simp [hd, Except.map] at h
  | ok d =>
    simp only [hd, Except.map, Except.ok.injEq] at h
    subst h
    obtain ⟨he, hn⟩ := Diagnostic.encode_of_decode hd
    exact ⟨he, by simp only [ErrorPayload.new, hn, Except.map]⟩

theorem ErrorPayload.new_blank {code : ErrorCode} (h : code ≠ .noError) :
    ErrorPayload.new code "" = .ok ⟨⟨code, ""⟩⟩ := by
  simp [ErrorPayload.new, Diagnostic.new_blank (.inl h), Except.map]

theorem ErrorPayload.decode_encode_blank {code : ErrorCode} (h : code ≠ .noError) :
    ErrorPayload.decode (ErrorPayload.encode ⟨⟨code, ""⟩⟩) = .ok ⟨⟨code, ""⟩⟩ :=
  ErrorPayload.decode_encode (ErrorPayload.new_blank h)

theorem GoAway.decode_encode {last : UInt32} {code : ErrorCode} {reason : String} {g : GoAway}
    (h : GoAway.new last code reason = .ok g) : GoAway.decode g.encode = .ok g := by
  simp only [GoAway.new] at h
  cases hd : Diagnostic.new code reason true with
  | error e => simp [hd, Except.map] at h
  | ok d =>
    simp only [hd, Except.map, Except.ok.injEq] at h
    subst h
    have hid : BigEndian.decode (BigEndian.encode 4 last.toNat) = last.toNat :=
      BigEndian.decode_encode last.toNat_lt
    have hl : (BigEndian.encode 4 last.toNat).length = 4 := BigEndian.encode_length _ _
    have hs : ¬ (GoAway.encode ⟨last, d⟩).length < 8 := by
      simp only [GoAway.encode, Diagnostic.encode, List.length_append, BigEndian.encode_length]
      omega
    rw [GoAway.decode, if_neg hs]
    simp only [GoAway.encode, List.take_left' hl, List.drop_left' hl, hid,
      Diagnostic.decode_encode hd, UInt32.ofNat_toNat]

theorem GoAway.encode_of_decode {payload : List UInt8} {g : GoAway}
    (h : GoAway.decode payload = .ok g) :
    g.encode = payload ∧
      GoAway.new g.lastAcceptedRemoteStreamId g.diagnostic.code g.diagnostic.reason = .ok g := by
  simp only [GoAway.decode] at h
  split at h
  case isTrue => simp at h
  case isFalse hl =>
    split at h
    case h_2 | h_3 => simp at h
    case h_1 d hd =>
      obtain rfl := Except.ok.inj h
      obtain ⟨he, hn⟩ := Diagnostic.encode_of_decode hd
      refine ⟨?_, by simp only [GoAway.new, hn, Except.map]⟩
      match payload, hl with
      | b0 :: b1 :: b2 :: b3 :: rest, _ =>
        simp only [GoAway.encode, he, List.take_succ_cons, List.take_zero, List.drop_succ_cons,
          List.drop_zero, FrameHeader.encode_word, List.cons_append, List.nil_append]

theorem GoAway.new_blank (last : UInt32) (code : ErrorCode) :
    GoAway.new last code "" = .ok ⟨last, ⟨code, ""⟩⟩ := by
  simp [GoAway.new, Diagnostic.new_blank (.inr rfl), Except.map]

theorem GoAway.decode_encode_blank (last : UInt32) (code : ErrorCode) :
    GoAway.decode (GoAway.encode ⟨last, ⟨code, ""⟩⟩) = .ok ⟨last, ⟨code, ""⟩⟩ :=
  GoAway.decode_encode (GoAway.new_blank last code)

theorem PingToken.decode_encode (token : Token) :
    PingToken.decode (PingToken.encode token) = .ok token := by
  simp only [PingToken.decode, PingToken.encode, Vector.length_toList, dite_true]
  rfl

end TalkSphere
