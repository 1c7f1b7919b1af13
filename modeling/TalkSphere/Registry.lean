import TalkSphere.Control

/-! The OPEN protocol selection and the registry that maps it to a local owner. -/

namespace TalkSphere

inductive OpenError
  | length
  | identifier
  | version
  deriving DecidableEq, Repr

structure Open where
  id : String
  version : UInt32
  deriving DecidableEq, Repr

namespace Open

def alphanumeric (byte : UInt8) : Bool :=
  (0x61 ≤ byte && byte ≤ 0x7a) || (0x30 ≤ byte && byte ≤ 0x39)

/-- Two consecutive dots somewhere in the identifier. -/
def hasEmptyLabel (bytes : List UInt8) : Bool :=
  (bytes.zip bytes.tail).any (fun pair => pair == (0x2e, 0x2e))

def new (id : String) (version : UInt32) : Except OpenError Open :=
  let bytes := utf8 id
  if ¬ (1 ≤ bytes.length ∧ bytes.length ≤ 255) then .error .length
  else if !(bytes.head?.any alphanumeric) || !(bytes.getLast?.any alphanumeric) ||
      !(bytes.all fun b => alphanumeric b || b == 0x2e || b == 0x2d) ||
      hasEmptyLabel bytes then .error .identifier
  else if version = 0 then .error .version
  else .ok ⟨id, version⟩

def decode (bytes : List UInt8) : Except OpenError Open :=
  if bytes.length < 7 then .error .length
  else
    let length := BigEndian.decode (bytes.take 2)
    if ¬ (1 ≤ length ∧ length ≤ 255) ∨ bytes.length ≠ length + 6 then .error .length
    else match String.fromUTF8? ⟨((bytes.drop 2).take length).toArray⟩ with
      | none => .error .identifier
      | some id => new id (UInt32.ofNat (BigEndian.decode (bytes.drop (2 + length))))

def encode (o : Open) : List UInt8 :=
  BigEndian.encode 2 (utf8 o.id).length ++ utf8 o.id ++ BigEndian.encode 4 o.version.toNat

theorem new_eq {id : String} {version : UInt32} {o : Open} (h : new id version = .ok o) :
    o = ⟨id, version⟩ ∧ 1 ≤ (utf8 id).length ∧ (utf8 id).length ≤ 255 := by
  simp only [new] at h
  split_ifs at h with hl
  exact ⟨(Except.ok.inj h).symm, hl⟩

theorem decode_encode {id : String} {version : UInt32} {o : Open} (h : new id version = .ok o) :
    decode o.encode = .ok o := by
  obtain ⟨rfl, hpos, hmax⟩ := new_eq h
  have hn : BigEndian.decode (BigEndian.encode 2 (utf8 id).length) = (utf8 id).length :=
    BigEndian.decode_encode (by omega)
  have hv : BigEndian.decode (BigEndian.encode 4 version.toNat) = version.toNat :=
    BigEndian.decode_encode version.toNat_lt
  have h2 : (BigEndian.encode 2 (utf8 id).length).length = 2 := BigEndian.encode_length _ _
  have hlen : (encode ⟨id, version⟩).length = (utf8 id).length + 6 := by
    simp only [encode, List.length_append, BigEndian.encode_length]
    omega
  have htake : (encode ⟨id, version⟩).take 2 = BigEndian.encode 2 (utf8 id).length := by
    rw [encode, List.append_assoc, List.take_left' h2]
  have hid : ((encode ⟨id, version⟩).drop 2).take (utf8 id).length = utf8 id := by
    rw [encode, List.append_assoc, List.drop_left' h2, List.take_left' rfl]
  have hver : (encode ⟨id, version⟩).drop (2 + (utf8 id).length) =
      BigEndian.encode 4 version.toNat := by
    rw [encode, List.drop_left' (by simp only [List.length_append, h2])]
  rw [decode, if_neg (by omega)]
  simp only [htake, hn]
  rw [if_neg (by omega), hid, fromUTF8_utf8, hver, hv]
  simpa only [UInt32.ofNat_toNat] using h

theorem encode_of_decode {bytes : List UInt8} {o : Open} (h : decode bytes = .ok o) :
    o.encode = bytes ∧ new o.id o.version = .ok o := by
  simp only [decode] at h
  split at h
  case isTrue => simp at h
  case isFalse hshort =>
    split at h
    case isTrue => simp at h
    case isFalse hl =>
      split at h
      case h_1 => simp at h
      case h_2 id hid =>
        obtain ⟨rfl, -⟩ := new_eq h
        refine ⟨?_, h⟩
        have hu := utf8_of_fromUTF8 hid
        have hlen : (utf8 id).length = BigEndian.decode (bytes.take 2) := by
          rw [hu, List.length_take, List.length_drop]
          omega
        have h2 : BigEndian.encode 2 (BigEndian.decode (bytes.take 2)) = bytes.take 2 := by
          have he := BigEndian.encode_decode (bytes.take 2)
          rwa [List.length_take, show min 2 bytes.length = 2 by omega] at he
        have hv : BigEndian.encode 4 (UInt32.ofNat (BigEndian.decode
            (bytes.drop (2 + BigEndian.decode (bytes.take 2))))).toNat =
            bytes.drop (2 + BigEndian.decode (bytes.take 2)) := by
          have hw : (bytes.drop (2 + BigEndian.decode (bytes.take 2))).length = 4 := by
            rw [List.length_drop]
            omega
          match hb : bytes.drop (2 + BigEndian.decode (bytes.take 2)), hw with
          | [a, b, c, d], _ => exact FrameHeader.encode_word a b c d
        rw [encode, hlen, h2, hu, hv, ← List.drop_drop, List.append_assoc, List.take_append_drop,
          List.take_append_drop]

theorem encode_length_le {id : String} {version : UInt32} {o : Open}
    (h : new id version = .ok o) : o.encode.length ≤ 261 := by
  simp only [new] at h
  split_ifs at h with hl
  cases h
  simp only [encode, List.length_append, BigEndian.encode_length]
  omega

end Open

inductive RegistrationError
  | invalid (e : OpenError)
  | duplicate
  deriving DecidableEq, Repr

structure Registry where
  entries : List (Protocol × StreamOwner) := []

namespace Registry

def resolve (r : Registry) (selection : Open) : Option StreamOwner :=
  (r.entries.find? fun e => e.1.id == selection.id && e.1.version == selection.version).map Prod.snd

def protocol (r : Registry) (owner : StreamOwner) : Option Protocol :=
  (r.entries.find? fun e => e.2 == owner).map Prod.fst

/-- Registration issues the capability `owner`; the source allocates it fresh. -/
def register (r : Registry) (protocol : Protocol) (owner : StreamOwner) :
    Except RegistrationError StreamOwner × Registry :=
  match Open.new protocol.id protocol.version with
  | .error e => (.error (.invalid e), r)
  | .ok selection =>
    if (r.resolve selection).isSome then (.error .duplicate, r)
    else (.ok owner, ⟨r.entries ++ [(protocol, owner)]⟩)

end Registry

end TalkSphere
