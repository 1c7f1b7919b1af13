import TalkSphere.Handshake

/-! Frame integrity with implicit sequence numbers. One sealed frame may be pending;
its number is used up when the whole frame is written. -/

namespace TalkSphere

open Cryptography (IntegrityKey)

inductive IntegrityError
  | closed
  | busy
  | shape
  | exhausted
  | dependency (e : DependencyError)
  | framing (e : FramingError)
  deriving DecidableEq, Repr

/-- The bytes a tag covers. -/
def WireFrame.authenticatedData (frame : WireFrame) : List UInt8 :=
  frame.header.encode ++ frame.payload

theorem WireFrame.authenticatedData_inj {frame frame' : WireFrame}
    (h : frame.authenticatedData = frame'.authenticatedData) :
    frame.header = frame'.header ∧ frame.payload = frame'.payload := by
  obtain ⟨hh, hp⟩ := List.append_inj h (by simp)
  exact ⟨FrameHeader.encode_inj hh, hp⟩

def UInt64.checkedSucc (n : UInt64) : Option UInt64 :=
  if n.toNat + 1 < 2 ^ 64 then some (n + 1) else none

theorem UInt64.toNat_succ {n : UInt64} (h : n.toNat + 1 < 2 ^ 64) :
    (n + 1).toNat = n.toNat + 1 := by
  rw [UInt64.toNat_add]
  exact Nat.mod_eq_of_lt h

structure Integrity (K : Type) where
  send : Option (DirectionKeys K)
  receive : Option (DirectionKeys K)
  sendSequence : UInt64 := 0
  receiveSequence : UInt64 := 0
  pendingSend : Bool := false

namespace Integrity

def new {K : Type} (keys : SessionKeys K) : Integrity K where
  send := some keys.send
  receive := some keys.receive

def close {K : Type} (i : Integrity K) : Integrity K :=
  { i with send := none, receive := none, pendingSend := false }

def isClosed {K : Type} (i : Integrity K) : Bool := i.send.isNone

def fail {K α : Type} (i : Integrity K) (e : IntegrityError) :
    Except IntegrityError α × Integrity K :=
  (.error e, i.close)

/-- A completion without a pending frame is refused and ends the session. -/
def sent {K : Type} (i : Integrity K) : Except IntegrityError Unit × Integrity K :=
  if i.send.isNone then (.error .closed, i)
  else if !i.pendingSend then i.fail .shape
  else match UInt64.checkedSucc i.sendSequence with
    | none => (.error .exhausted, i)
    | some next => (.ok (), { i with sendSequence := next, pendingSend := false })

variable {γ : Type} [Cryptography γ]

def seal_ (i : Integrity (IntegrityKey γ)) (frame : WireFrame) (crypto : γ) :
    Except IntegrityError WireFrame × Integrity (IntegrityKey γ) :=
  match i.send with
  | none => (.error .closed, i)
  | some direction =>
    if i.pendingSend then (.error .busy, i)
    else if frame.tag.isSome then i.fail .shape
    else if i.sendSequence.toNat = 2 ^ 64 - 1 then i.fail .exhausted
    else match Cryptography.tag crypto direction.key
        (nonce direction.noncePrefix i.sendSequence) frame.authenticatedData with
      | .error e => i.fail (.dependency e)
      | .ok tag =>
        match WireFrame.new frame.header frame.payload (some tag) with
        | .error e => (.error (.framing e), i)
        | .ok tagged =>
          (.ok { tagged with reservation := frame.reservation }, { i with pendingSend := true })

def verify (i : Integrity (IntegrityKey γ)) (frame : WireFrame) (crypto : γ) :
    Except IntegrityError VerifiedFrame × Integrity (IntegrityKey γ) :=
  match i.receive with
  | none => (.error .closed, i)
  | some direction =>
    match frame.tag with
    | none => i.fail .shape
    | some tag =>
      match Cryptography.verifyTag crypto direction.key
          (nonce direction.noncePrefix i.receiveSequence) frame.authenticatedData tag with
      | .error e => i.fail (.dependency e)
      | .ok () =>
        match UInt64.checkedSucc i.receiveSequence with
        | none => i.fail .exhausted
        | some next => (.ok ⟨frame⟩, { i with receiveSequence := next })

/-- What one call to `seal` does. -/
inductive Sealed (i : Integrity (IntegrityKey γ)) (frame : WireFrame) (crypto : γ) :
    Except IntegrityError WireFrame × Integrity (IntegrityKey γ) → Prop
  | refused {e : IntegrityError} : Sealed i frame crypto (.error e, i)
  | failed {e : IntegrityError} : Sealed i frame crypto (.error e, i.close)
  | ok {direction : DirectionKeys (IntegrityKey γ)} {tag : Tag} (held : i.send = some direction)
      (idle : i.pendingSend = false) (bound : i.sendSequence.toNat + 1 < 2 ^ 64)
      (tagged : Cryptography.tag crypto direction.key
        (nonce direction.noncePrefix i.sendSequence) frame.authenticatedData = .ok tag) :
      Sealed i frame crypto (.ok { frame with tag := some tag }, { i with pendingSend := true })

theorem seal_sealed (i : Integrity (IntegrityKey γ)) (frame : WireFrame) (crypto : γ) :
    Sealed i frame crypto (i.seal_ frame crypto) := by
  simp only [seal_]
  cases hs : i.send with
  | none => exact .refused
  | some direction =>
    simp only
    split
    case isTrue => exact .refused
    case isFalse hp =>
      split
      case isTrue => exact .failed
      case isFalse =>
        split
        case isTrue => exact .failed
        case isFalse hb =>
          have hlt := i.sendSequence.toNat_lt
          cases ht : Cryptography.tag crypto direction.key
            (nonce direction.noncePrefix i.sendSequence) frame.authenticatedData with
          | error e => exact .failed
          | ok tag =>
            simp only [WireFrame.new, frame.payload_length, dif_pos]
            have ho := Sealed.ok hs (by simpa using hp) (by omega) ht
            rwa [hs] at ho

/-- What one call to `verify` does; nothing but success leaves keys that were there. -/
inductive Verified (i : Integrity (IntegrityKey γ)) (frame : WireFrame) (crypto : γ) :
    Except IntegrityError VerifiedFrame × Integrity (IntegrityKey γ) → Prop
  | closed (gone : i.receive = none) : Verified i frame crypto (.error .closed, i)
  | failed {e : IntegrityError} : Verified i frame crypto (.error e, i.close)
  | ok {direction : DirectionKeys (IntegrityKey γ)} {tag : Tag} (held : i.receive = some direction)
      (tagged : frame.tag = some tag) (bound : i.receiveSequence.toNat + 1 < 2 ^ 64)
      (accepted : Cryptography.verifyTag crypto direction.key
        (nonce direction.noncePrefix i.receiveSequence) frame.authenticatedData tag = .ok ()) :
      Verified i frame crypto (.ok ⟨frame⟩, { i with receiveSequence := i.receiveSequence + 1 })

theorem verify_verified (i : Integrity (IntegrityKey γ)) (frame : WireFrame) (crypto : γ) :
    Verified i frame crypto (i.verify frame crypto) := by
  simp only [verify]
  cases hr : i.receive with
  | none => exact .closed hr
  | some direction =>
    simp only
    cases ht : frame.tag with
    | none => exact .failed
    | some tag =>
      simp only
      cases hv : Cryptography.verifyTag crypto direction.key
        (nonce direction.noncePrefix i.receiveSequence) frame.authenticatedData tag with
      | error e => exact .failed
      | ok =>
        by_cases hb : i.receiveSequence.toNat + 1 < 2 ^ 64
        · simp only [UInt64.checkedSucc, if_pos hb]
          have ho := Verified.ok hr ht hb hv
          rwa [hr] at ho
        · simp only [UInt64.checkedSucc, if_neg hb]
          exact .failed

theorem sent_cases {K : Type} (i : Integrity K) :
    i.sent = (.error .closed, i) ∨ i.sent = (.error .exhausted, i) ∨
      i.sent = (.error .shape, i.close) ∨
      (i.send.isSome ∧ i.pendingSend = true ∧ i.sendSequence.toNat + 1 < 2 ^ 64 ∧
        i.sent = (.ok (), { i with sendSequence := i.sendSequence + 1, pendingSend := false })) := by
  simp only [sent, fail]
  split
  case isTrue => simp
  case isFalse hs =>
    split
    case isTrue => simp
    case isFalse hp =>
      by_cases hb : i.sendSequence.toNat + 1 < 2 ^ 64
      · rw [UInt64.checkedSucc, if_pos hb]
        exact .inr (.inr (.inr ⟨by simpa [Option.isSome_iff_ne_none] using hs, by simpa using hp,
          hb, rfl⟩))
      · rw [UInt64.checkedSucc, if_neg hb]
        exact .inr (.inl rfl)

end Integrity

end TalkSphere
