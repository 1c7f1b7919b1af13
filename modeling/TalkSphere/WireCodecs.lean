import TalkSphere.Codec
import TalkSphere.Registry
import TalkSphere.HandshakePayload

/-! Every wire format of the transport is canonical. The indexed decoders follow
the source's own reads, index by index, and answer `none` where one would panic. -/

namespace TalkSphere

open Codec

def FrameHeader.decodeIndexed (bytes : List UInt8) : Option (Except HeaderError FrameHeader) :=
  if bytes.length ≠ headerBytes then some (.error (.invalidLength bytes.length))
  else do
    let b0 ← at? bytes 0
    if b0 ≠ TalkSphere.version then return .error (.unsupportedVersion b0)
    let flags := BigEndian.decode [← at? bytes 2, ← at? bytes 3]
    if flags ≠ 0 then return .error (.nonzeroFlags flags)
    let payloadLen := UInt32.ofNat (BigEndian.decode
      [← at? bytes 8, ← at? bytes 9, ← at? bytes 10, ← at? bytes 11])
    if payloadLen.toNat > maxPayloadBytes then return .error (.payloadTooLarge payloadLen)
    match FrameType.tryFrom (← at? bytes 1) with
    | .error e => return .error e
    | .ok frameType =>
      let streamId := UInt32.ofNat (BigEndian.decode
        [← at? bytes 4, ← at? bytes 5, ← at? bytes 6, ← at? bytes 7])
      return FrameHeader.new frameType streamId payloadLen

theorem FrameHeader.decodeIndexed_eq (bytes : List UInt8) :
    FrameHeader.decodeIndexed bytes = some (FrameHeader.decode bytes) := by
  match bytes with
  | [b0, b1, b2, b3, b4, b5, b6, b7, b8, b9, b10, b11] =>
    simp only [decodeIndexed, decode, at?, List.length_cons, List.length_nil, List.getElem?_cons_zero,
      List.getElem?_cons_succ, Option.pure_def, Option.bind_eq_bind, Option.bind_some, headerBytes,
      Nat.reduceAdd, ne_eq, not_true_eq_false, if_false]
    split_ifs <;> try rfl
    cases FrameType.tryFrom b1 <;> rfl
  | [] | [_] | [_, _] | [_, _, _] | [_, _, _, _] | [_, _, _, _, _] | [_, _, _, _, _, _]
  | [_, _, _, _, _, _, _] | [_, _, _, _, _, _, _, _] | [_, _, _, _, _, _, _, _, _]
  | [_, _, _, _, _, _, _, _, _, _] | [_, _, _, _, _, _, _, _, _, _, _] => rfl
  | _ :: _ :: _ :: _ :: _ :: _ :: _ :: _ :: _ :: _ :: _ :: _ :: _ :: rest =>
    simp [decodeIndexed, decode, headerBytes]

def Hello.selectors (bytes : List UInt8) : List Nat → Option (Except HandshakePayloadError Unit)
  | [] => some (.ok ())
  | offset :: rest => do
    let value ← at? bytes offset
    if value ≠ 1 then return .error (.selector offset value)
    selectors bytes rest

def copyFromSlice? (n : Nat) (slice : List UInt8) : Option (Vector UInt8 n) :=
  if h : slice.length = n then some ⟨slice.toArray, by simpa using h⟩ else none

def Hello.decodeIndexed (bytes : List UInt8) : Option (Except HandshakePayloadError Hello) :=
  if bytes.length ≠ 100 then some (.error (.length 100 bytes.length))
  else do
    match ← Hello.selectors bytes [0, 1, 2, 35] with
    | .error e => return .error e
    | .ok () =>
      let identityPublicKey ← copyFromSlice? 32 (← slice? bytes 3 35)
      let ephemeralPublicKey ← copyFromSlice? 32 (← slice? bytes 36 68)
      let nonce ← copyFromSlice? 32 (← slice? bytes 68 bytes.length)
      return .ok ⟨identityPublicKey, ephemeralPublicKey, nonce⟩

def Auth.decodeIndexed (bytes : List UInt8) : Option (Except HandshakePayloadError Auth) :=
  if bytes.length ≠ 64 then some (.error (.length 64 bytes.length))
  else do
    let signature ← copyFromSlice? 64 bytes
    return .ok ⟨signature⟩

def Open.newIndexed (id : String) (version : UInt32) : Option (Except OpenError Open) :=
  let bytes := utf8 id
  if ¬ (1 ≤ bytes.length ∧ bytes.length ≤ 255) then some (.error .length)
  else do
    let first ← at? bytes 0
    let last ← at? bytes (bytes.length - 1)
    if !Open.alphanumeric first || !Open.alphanumeric last ||
        !(bytes.all fun b => Open.alphanumeric b || b == 0x2e || b == 0x2d) ||
        Open.hasEmptyLabel bytes then return .error .identifier
    if version = 0 then return .error .version
    return .ok ⟨id, version⟩

def Open.decodeIndexed (bytes : List UInt8) : Option (Except OpenError Open) :=
  if bytes.length < 7 then some (.error .length)
  else do
    let length := BigEndian.decode [← at? bytes 0, ← at? bytes 1]
    if ¬ (1 ≤ length ∧ length ≤ 255) ∨ bytes.length ≠ length + 6 then return .error .length
    match String.fromUTF8? ⟨(← slice? bytes 2 (2 + length)).toArray⟩ with
    | none => return .error .identifier
    | some id =>
      let offset := 2 + length
      let version := UInt32.ofNat (BigEndian.decode [← at? bytes offset, ← at? bytes (offset + 1),
        ← at? bytes (offset + 2), ← at? bytes (offset + 3)])
      Open.newIndexed id version

def Diagnostic.decodeIndexed (payload : List UInt8) (allowNoError : Bool) :
    Option (Except PayloadError Diagnostic) :=
  if payload.length < 4 then some (.error (.tooShort 4 payload.length))
  else do
    let code := BigEndian.decode [← at? payload 0, ← at? payload 1]
    let reasonLen := BigEndian.decode [← at? payload 2, ← at? payload 3]
    if reasonLen > maxReasonBytes then return .error (.reasonTooLong reasonLen)
    let expected := 4 + reasonLen
    if payload.length ≠ expected then return .error (.lengthMismatch expected payload.length)
    match String.fromUTF8? ⟨(← slice? payload 4 payload.length).toArray⟩ with
    | none => return .error .invalidUtf8
    | some reason =>
      match ErrorCode.tryFrom code with
      | .error e => return .error e
      | .ok code => return Diagnostic.new code reason allowNoError

def ErrorPayload.decodeIndexed (payload : List UInt8) : Option (Except PayloadError ErrorPayload) :=
  (Diagnostic.decodeIndexed payload false).map (Except.map ErrorPayload.mk)

def GoAway.decodeIndexed (payload : List UInt8) : Option (Except PayloadError GoAway) :=
  if payload.length < 8 then some (.error (.tooShort 8 payload.length))
  else do
    let last := UInt32.ofNat (BigEndian.decode
      [← at? payload 0, ← at? payload 1, ← at? payload 2, ← at? payload 3])
    match ← Diagnostic.decodeIndexed (← slice? payload 4 payload.length) true with
    | .ok diagnostic => return .ok ⟨last, diagnostic⟩
    | .error (.lengthMismatch expected actual) =>
      return .error (.lengthMismatch (expected + 4) (actual + 4))
    | .error other => return .error other

theorem Diagnostic.decodeIndexed_eq (payload : List UInt8) (allowNoError : Bool) :
    Diagnostic.decodeIndexed payload allowNoError =
      some (Diagnostic.decode payload allowNoError) := by
  match payload with
  | [] | [_] | [_, _] | [_, _, _] => rfl
  | b0 :: b1 :: b2 :: b3 :: text =>
    have hs : slice? (b0 :: b1 :: b2 :: b3 :: text) 4 (b0 :: b1 :: b2 :: b3 :: text).length =
        some text := slice?_from (by simp)
    have hl : ¬ (b0 :: b1 :: b2 :: b3 :: text).length < 4 := by simp
    rw [decodeIndexed, if_neg hl, hs]
    simp only [decode, at?, List.getElem?_cons_zero, List.getElem?_cons_succ, Option.pure_def,
      Option.bind_eq_bind, Option.bind_some]
    split_ifs <;> try rfl
    cases String.fromUTF8? ⟨text.toArray⟩ with
    | none => rfl
    | some reason => cases ErrorCode.tryFrom (BigEndian.decode [b0, b1]) <;> rfl

theorem GoAway.decodeIndexed_eq (payload : List UInt8) :
    GoAway.decodeIndexed payload = some (GoAway.decode payload) := by
  simp only [decodeIndexed, decode]
  split_ifs with h
  · rfl
  · rw [slice?_from (by omega)]
    match payload, not_lt.1 h with
    | b0 :: b1 :: b2 :: b3 :: rest, _ =>
      simp only [at?, Diagnostic.decodeIndexed_eq, List.getElem?_cons_zero, List.getElem?_cons_succ,
        Option.pure_def, Option.bind_eq_bind, Option.bind_some, List.take_succ_cons, List.take_zero]
      cases Diagnostic.decode (List.drop 4 (b0 :: b1 :: b2 :: b3 :: rest)) true with
      | ok d => rfl
      | error e => cases e <;> rfl

theorem Hello.selectors_eq {bytes : List UInt8} {offsets : List Nat}
    (h : ∀ offset ∈ offsets, offset < bytes.length) :
    Hello.selectors bytes offsets =
      some (match offsets.find? fun offset => bytes.getD offset 0 ≠ 1 with
        | some offset => .error (.selector offset (bytes.getD offset 0))
        | none => .ok ()) := by
  induction offsets with
  | nil => rfl
  | cons offset rest ih =>
    have hr := ih fun o ho => h o (List.mem_cons_of_mem _ ho)
    simp only [selectors, at?_eq (h offset List.mem_cons_self), hr, List.find?_cons, Option.pure_def,
      Option.bind_eq_bind, Option.bind_some]
    by_cases hb : bytes.getD offset 0 = 1 <;> simp only [hb, ne_eq, not_true_eq_false,
      not_false_eq_true, if_true, if_false, decide_true, decide_false]

theorem copyFromSlice?_eq {bytes : List UInt8} {start count : Nat}
    (h : start + count ≤ bytes.length) :
    copyFromSlice? count ((bytes.drop start).take count) = some (bytesAt bytes start count) := by
  have hl : ((bytes.drop start).take count).length = count := by
    simp only [List.length_take, List.length_drop]
    omega
  rw [copyFromSlice?, dif_pos hl]
  refine congrArg some (Vector.toList_inj.1 ?_)
  rw [bytesAt_toList h]
  simp [Vector.toList]

theorem Hello.decodeIndexed_eq (bytes : List UInt8) :
    Hello.decodeIndexed bytes = some (Hello.decode bytes) := by
  by_cases hl : bytes.length = 100
  · have hsel : Hello.selectors bytes [0, 1, 2, 35] = _ := Hello.selectors_eq (by
      simp only [List.mem_cons, List.not_mem_nil, or_false]
      omega)
    have hs := fun start count (h : start + count ≤ bytes.length) =>
      (slice?_eq (Nat.le_add_right start count) h).trans
        (by rw [Nat.add_sub_cancel_left])
    have hc := fun start count (h : start + count ≤ bytes.length) =>
      copyFromSlice?_eq h
    have h100 : slice? bytes 68 bytes.length = slice? bytes 68 (68 + 32) := by rw [hl]
    rw [decodeIndexed, decode, if_neg (not_not.2 hl), if_neg (not_not.2 hl), hsel, h100,
      hs 3 32 (by omega), hs 36 32 (by omega), hs 68 32 (by omega)]
    simp only [hc 3 32 (by omega), hc 36 32 (by omega), hc 68 32 (by omega), Option.pure_def,
      Option.bind_eq_bind, Option.bind_some]
    cases [0, 1, 2, 35].find? fun offset => bytes.getD offset 0 ≠ 1 <;> rfl
  · rw [decodeIndexed, decode, if_pos hl, if_pos hl]

theorem Auth.decodeIndexed_eq (bytes : List UInt8) :
    Auth.decodeIndexed bytes = some (Auth.decode bytes) := by
  by_cases hl : bytes.length = 64
  · have hc : copyFromSlice? 64 bytes = some (bytesAt bytes 0 64) := by
      have h := copyFromSlice?_eq (show 0 + 64 ≤ bytes.length by omega)
      rwa [List.drop_zero, List.take_of_length_le (by omega)] at h
    rw [decodeIndexed, decode, if_neg (not_not.2 hl), if_pos hl, hc]
    rfl
  · rw [decodeIndexed, decode, if_pos hl, if_neg hl]

theorem Open.newIndexed_eq (id : String) (version : UInt32) :
    Open.newIndexed id version = some (Open.new id version) := by
  by_cases hl : 1 ≤ (utf8 id).length ∧ (utf8 id).length ≤ 255
  · have hfirst : (utf8 id).head? = some ((utf8 id).getD 0 0) := by
      rw [List.head?_eq_getElem?, ← at?_eq (by omega)]
      rfl
    have hlast : (utf8 id).getLast? = some ((utf8 id).getD ((utf8 id).length - 1) 0) := by
      rw [List.getLast?_eq_getElem?, ← at?_eq (by omega)]
      rfl
    simp only [newIndexed, new, hl, and_self, not_true_eq_false, if_false, hfirst, hlast,
      at?_eq (show 0 < (utf8 id).length by omega),
      at?_eq (show (utf8 id).length - 1 < (utf8 id).length by omega), Option.any_some,
      Option.pure_def, Option.bind_eq_bind, Option.bind_some]
    split_ifs <;> rfl
  · simp only [newIndexed, new, hl, not_false_eq_true, if_true]

theorem take_two_eq {bytes : List UInt8} (h : 2 ≤ bytes.length) :
    bytes.take 2 = [bytes.getD 0 0, bytes.getD 1 0] := by
  match bytes, h with
  | _ :: _ :: _, _ => rfl

theorem drop_four_eq {bytes : List UInt8} {offset : Nat} (h : bytes.length = offset + 4) :
    bytes.drop offset = [bytes.getD offset 0, bytes.getD (offset + 1) 0,
      bytes.getD (offset + 2) 0, bytes.getD (offset + 3) 0] := by
  have hl : (bytes.drop offset).length = 4 := by
    rw [List.length_drop]
    omega
  have hg : ∀ i, bytes.getD (offset + i) 0 = (bytes.drop offset).getD i 0 := by
    intro i
    simp only [List.getD_eq_getElem?_getD, List.getElem?_drop]
  have h0 := hg 0
  rw [Nat.add_zero] at h0
  rw [h0, hg 1, hg 2, hg 3]
  match bytes.drop offset, hl with
  | [a, b, c, d], _ => rfl

theorem Open.decodeIndexed_eq (bytes : List UInt8) :
    Open.decodeIndexed bytes = some (Open.decode bytes) := by
  by_cases hs : bytes.length < 7
  · rw [decodeIndexed, decode, if_pos hs, if_pos hs]
  · rw [decodeIndexed, decode, if_neg hs, if_neg hs]
    simp only [take_two_eq (show 2 ≤ bytes.length by omega),
      at?_eq (show 0 < bytes.length by omega), at?_eq (show 1 < bytes.length by omega),
      Option.pure_def, Option.bind_eq_bind, Option.bind_some]
    generalize BigEndian.decode [bytes.getD 0 0, bytes.getD 1 0] = length
    split
    case isTrue => rfl
    case isFalse hl =>
      rw [slice?_eq (by omega) (by omega), at?_eq (by omega), at?_eq (by omega),
        at?_eq (by omega), at?_eq (by omega),
        drop_four_eq (show bytes.length = 2 + length + 4 by omega)]
      simp only [Option.bind_some, Nat.add_sub_cancel_left]
      cases String.fromUTF8? ⟨((bytes.drop 2).take length).toArray⟩ with
      | none => rfl
      | some id => exact Open.newIndexed_eq id _

/-- Each decoder of the transport accepts exactly the image of its encoder on
constructible values, one byte string for each value, and reads inside its input. -/
theorem wire_codecs_canonical :
    Canonical (fun _ => True) FrameHeader.encode FrameHeader.decode FrameHeader.decodeIndexed ∧
    Canonical (fun _ => True) Hello.encode Hello.decode Hello.decodeIndexed ∧
    Canonical (fun _ => True) Auth.encode Auth.decode Auth.decodeIndexed ∧
    Canonical (fun o => ∃ id version, Open.new id version = .ok o)
      Open.encode Open.decode Open.decodeIndexed ∧
    Canonical (fun p => ∃ code reason, ErrorPayload.new code reason = .ok p)
      ErrorPayload.encode ErrorPayload.decode ErrorPayload.decodeIndexed ∧
    Canonical (fun g => ∃ last code reason, GoAway.new last code reason = .ok g)
      GoAway.encode GoAway.decode GoAway.decodeIndexed := by
  refine ⟨?_, ?_, ?_, ?_, ?_, ?_⟩
  · exact .of_inverse (fun h _ => h.decode_encode)
      (fun _ _ h => ⟨FrameHeader.encode_of_decode h, trivial⟩) FrameHeader.decodeIndexed_eq
  · exact .of_inverse (fun h _ => h.decode_encode)
      (fun _ _ h => ⟨Hello.encode_of_decode h, trivial⟩) Hello.decodeIndexed_eq
  · exact .of_inverse (fun a _ => a.decode_encode)
      (fun _ _ h => ⟨Auth.encode_of_decode h, trivial⟩) Auth.decodeIndexed_eq
  · refine .of_inverse ?_ ?_ Open.decodeIndexed_eq
    · rintro o ⟨id, version, h⟩
      exact Open.decode_encode h
    · intro bytes o h
      exact ⟨(Open.encode_of_decode h).1, _, _, (Open.encode_of_decode h).2⟩
  · refine .of_inverse ?_ ?_ ?_
    · rintro p ⟨code, reason, h⟩
      exact ErrorPayload.decode_encode h
    · intro bytes p h
      exact ⟨(ErrorPayload.encode_of_decode h).1, _, _, (ErrorPayload.encode_of_decode h).2⟩
    · intro bytes
      simp only [ErrorPayload.decodeIndexed, ErrorPayload.decode, Diagnostic.decodeIndexed_eq,
        Option.map_some]
  · refine .of_inverse ?_ ?_ GoAway.decodeIndexed_eq
    · rintro g ⟨last, code, reason, h⟩
      exact GoAway.decode_encode h
    · intro bytes g h
      exact ⟨(GoAway.encode_of_decode h).1, _, _, _, (GoAway.encode_of_decode h).2⟩

end TalkSphere
