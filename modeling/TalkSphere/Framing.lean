import TalkSphere.Resources

/-! Complete-frame input and output over a nonblocking socket. The reader and
the writer keep their progress across calls and stop after 64 steps of a poll. -/

namespace TalkSphere

inductive FramingError
  | header (e : HeaderError)
  | truncated
  | io (kind : ErrorKind)
  | closed
  | phaseChanged
  | shape
  | busy
  deriving DecidableEq, Repr

abbrev Tag := Vector UInt8 16

structure WireFrame where
  reservation : Option Reservation
  header : FrameHeader
  payload : List UInt8
  tag : Option Tag
  payload_length : payload.length = header.payloadLen.toNat
  deriving DecidableEq, Repr

def WireFrame.new (header : FrameHeader) (payload : List UInt8) (tag : Option Tag) :
    Except FramingError WireFrame :=
  if h : payload.length = header.payloadLen.toNat then .ok ⟨none, header, payload, tag, h⟩
  else .error .shape

/-- A frame released only after its directional tag verified. -/
structure VerifiedFrame where
  wire : WireFrame

inductive Poll (α : Type)
  | pending
  | ready (value : α)
  deriving DecidableEq, Repr

/-- A nonblocking socket. A successful read yields the bytes it put into a buffer
of the given size; none means end of stream, and more than fit is a broken adapter. -/
class Socket (σ : Type) where
  pollRead : σ → Nat → Poll (Except ErrorKind (List UInt8)) × σ
  pollWrite : σ → List UInt8 → Poll (Except ErrorKind Nat) × σ

structure FrameReader where
  bytes : List UInt8 := []
  offset : Nat := 0
  header : Option FrameHeader := none
  phase : Option FrameProtection := none
  failed : Bool := false
  eof : Bool := false
  deriving DecidableEq, Repr

def resize (bytes : List UInt8) (length : Nat) : List UInt8 :=
  bytes.take length ++ List.replicate (length - bytes.length) 0

namespace FrameReader

abbrev Outcome := Poll (Except FramingError (Option WireFrame))

def fail (r : FrameReader) (e : FramingError) : Outcome × FrameReader :=
  (.ready (.error e), { r with failed := true, bytes := [] })

/-- Bytes the socket placed after the first `offset` ones. -/
def fill (r : FrameReader) (input : List UInt8) : FrameReader :=
  { r with
    bytes := r.bytes.take r.offset ++ input ++ r.bytes.drop (r.offset + input.length)
    offset := r.offset + input.length }

/-- A full buffer behind a decoded header. The source assembles the frame from
its private fields; the length check of `WireFrame.new` never rejects it. -/
def finish (r : FrameReader) (header : FrameHeader) (phase : FrameProtection) :
    Outcome × FrameReader :=
  let body := r.bytes.take (r.bytes.length - phase.overhead)
  let tail := r.bytes.drop (r.bytes.length - phase.overhead)
  let tag : Option Tag := match phase with
    | .tagged => some (Vector.ofFn fun i => tail.getD i 0)
    | .untagged => none
  match WireFrame.new header (body.drop headerBytes) tag with
  | .error e => r.fail e
  | .ok frame =>
    (.ready (.ok (some frame)), { r with header := none, bytes := [], offset := 0, phase := none })

def pollLoop {σ : Type} [Socket σ] (phase : FrameProtection) :
    Nat → FrameReader → σ → Outcome × FrameReader × σ
  | 0, r, socket => (.pending, r, socket)
  | steps + 1, r, socket =>
    if r.offset = r.bytes.length then
      match r.header with
      | some header => ((r.finish header phase).1, (r.finish header phase).2, socket)
      | none =>
        match FrameHeader.decode r.bytes with
        | .error e => ((r.fail (.header e)).1, (r.fail (.header e)).2, socket)
        | .ok header =>
          match header.frameLen phase with
          | .error e => ((r.fail (.header e)).1, (r.fail (.header e)).2, socket)
          | .ok length =>
            pollLoop phase steps
              { r with header := some header, bytes := resize r.bytes length } socket
    else
      match Socket.pollRead socket (r.bytes.length - r.offset) with
      | (.pending, socket) => (.pending, r, socket)
      | (.ready (.error .interrupted), socket) => pollLoop phase steps r socket
      | (.ready (.error kind), socket) => ((r.fail (.io kind)).1, (r.fail (.io kind)).2, socket)
      | (.ready (.ok input), socket) =>
        if input.length = 0 then
          if r.offset = 0 then (.ready (.ok none), { r with eof := true, bytes := [] }, socket)
          else ((r.fail .truncated).1, (r.fail .truncated).2, socket)
        else if input.length ≤ r.bytes.length - r.offset then
          pollLoop phase steps (r.fill input) socket
        else ((r.fail (.io .invalidData)).1, (r.fail (.io .invalidData)).2, socket)

def pollFrame {σ : Type} [Socket σ] (r : FrameReader) (socket : σ) (phase : FrameProtection) :
    Outcome × FrameReader × σ :=
  if r.failed then (.ready (.error .closed), r, socket)
  else if r.eof then (.ready (.ok none), r, socket)
  else if r.phase.any (· != phase) then
    ((r.fail .phaseChanged).1, (r.fail .phaseChanged).2, socket)
  else
    let r := { r with phase := some phase }
    let r := if r.bytes = [] then { r with bytes := List.replicate headerBytes 0 } else r
    pollLoop phase 64 r socket

end FrameReader

structure FrameWriter where
  reservation : Option Reservation := none
  bytes : List UInt8 := []
  offset : Nat := 0
  failed : Bool := false
  deriving DecidableEq, Repr

namespace FrameWriter

abbrev Outcome := Poll (Except FramingError Unit)

/-- The whole serialized frame, with its tag when the direction has one. -/
def serialize (frame : WireFrame) : List UInt8 :=
  frame.header.encode ++ frame.payload ++ (frame.tag.map Vector.toList).getD []

def start (w : FrameWriter) (frame : WireFrame) (phase : FrameProtection) :
    Except FramingError Unit × FrameWriter :=
  if w.failed then (.error .closed, w)
  else if w.bytes ≠ [] then (.error .busy, w)
  else if frame.tag.isSome ≠ (phase == .tagged) then (.error .shape, w)
  else match frame.header.frameLen phase with
    | .error e => (.error (.header e), w)
    | .ok _ =>
      (.ok (), { w with reservation := frame.reservation, bytes := serialize frame, offset := 0 })

def fail (w : FrameWriter) (kind : ErrorKind) : Outcome × FrameWriter :=
  (.ready (.error (.io kind)), { w with reservation := none, failed := true, bytes := [] })

def flushLoop {σ : Type} [Socket σ] : Nat → FrameWriter → σ → Outcome × FrameWriter × σ
  | 0, w, socket => (.pending, w, socket)
  | steps + 1, w, socket =>
    if w.offset = w.bytes.length then
      (.ready (.ok ()), { w with reservation := none, bytes := [], offset := 0 }, socket)
    else
      match Socket.pollWrite socket (w.bytes.drop w.offset) with
      | (.pending, socket) => (.pending, w, socket)
      | (.ready (.error .interrupted), socket) => flushLoop steps w socket
      | (.ready (.error kind), socket) => ((w.fail kind).1, (w.fail kind).2, socket)
      | (.ready (.ok count), socket) =>
        if count = 0 then ((w.fail .writeZero).1, (w.fail .writeZero).2, socket)
        else if count ≤ w.bytes.length - w.offset then
          flushLoop steps { w with offset := w.offset + count } socket
        else ((w.fail .invalidData).1, (w.fail .invalidData).2, socket)

def pollFlush {σ : Type} [Socket σ] (w : FrameWriter) (socket : σ) : Outcome × FrameWriter × σ :=
  if w.failed then (.ready (.error .closed), w, socket) else flushLoop 64 w socket

def isBusy (w : FrameWriter) : Bool := !w.bytes.isEmpty

end FrameWriter

end TalkSphere
