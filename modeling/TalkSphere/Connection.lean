import TalkSphere.Integrity
import TalkSphere.Party

/-! One socket with its framing, its handshake, its keys and its session. A
connection holds the present value of the counters it shares, and hands it to its
session at every call. What the source drops returns its lease here. The traffic of a
connection is a record for statements about runs; the source keeps none. -/

namespace TalkSphere

open Cryptography (IntegrityKey)

structure Disposition where
  failure : Failure
  response : Option ErrorCode
  deriving DecidableEq, Repr

namespace Disposition

def framing : FramingError → Disposition
  | .header (.unsupportedVersion _) => ⟨⟨.local_, .protocolViolation⟩, none⟩
  | .header (.payloadTooLarge _) => ⟨⟨.local_, .frameTooLarge⟩, some .frameSizeError⟩
  | .header _ => ⟨⟨.local_, .protocolViolation⟩, some .protocolError⟩
  | .truncated => ⟨⟨.local_, .truncatedFrame⟩, none⟩
  | .io _ | .closed => ⟨⟨.local_, .connectionLost⟩, none⟩
  | .phaseChanged | .shape | .busy => ⟨⟨.local_, .internal⟩, none⟩

def handshake : HandshakeError → Disposition
  | .peer code => ⟨⟨.peer, failureCode code⟩, none⟩
  | .framing e => framing e
  | .order | .payload _ => ⟨⟨.local_, .protocolViolation⟩, some .protocolError⟩
  | .unexpectedIdentity | .dependency _ =>
    ⟨⟨.local_, .authenticationFailed⟩, some .authenticationFailed⟩

def integrity (e : IntegrityError) : Disposition :=
  ⟨⟨.local_, if e = .exhausted then .sequenceExhausted else .integrityFailed⟩, none⟩

def withSafeOutput (d : Disposition) (safe : Bool) : Disposition :=
  if safe then d else { d with response := none }

end Disposition

def localFailure (code : FailureCode) : Disposition := ⟨⟨.local_, code⟩, none⟩

/-- A connection ERROR without a diagnostic. -/
def errorFrame (code : ErrorCode) : Option WireFrame :=
  match ErrorPayload.new code "" with
  | .error _ => none
  | .ok payload =>
    match FrameHeader.new .error 0 (UInt32.ofNat payload.encode.length) with
    | .error _ => none
    | .ok header => (WireFrame.new header payload.encode none).toOption

/-- Header and payload of a frame without a tag. -/
def handshakeOverhead : Nat := 12

/-- Popping until nothing is left; every popped frame returns its lease. -/
def Session.discard : Nat → Session → Session
  | 0, s => s
  | n + 1, s =>
    match s.popOutbound with
    | (none, s) => s
    | (some f, s) => discard n { s with resources := s.resources.releaseOutbound f.reservation }

structure Options where
  role : ConnectionRole
  expectedPeer : ExpectedPeer
  deriving DecidableEq, Repr

/-- Frames handed to the writer and frames the reader returned, each with its mode, the
errors the reader reported, and the socket in the state it was closed in. -/
structure Traffic (σ : Type) where
  wrote : List (FrameProtection × WireFrame) := []
  heard : List (FrameProtection × WireFrame) := []
  faults : List FramingError := []
  retired : Option σ := none

structure Connection (σ γ : Type) [Cryptography γ] where
  resources : Resources
  admission : Option Reservation
  handle : ConnectionHandle
  socket : Option σ
  reader : FrameReader := {}
  writer : FrameWriter := {}
  handshake : Option (Handshake γ)
  integrity : Option (Integrity (IntegrityKey γ)) := none
  session : Option Session := none
  handshakeOutput : List WireFrame
  writing : Option (FrameType × UInt32 × FrameProtection) := none
  events : List Event := []
  deadline : Instant
  timeout : Duration
  closing : Bool := false
  traffic : Traffic σ := {}

namespace Connection

variable {σ γ ι : Type} [Socket σ] [Cryptography γ] [Identity ι]

/-- `handle` is the allocation the source makes. A failure drops the leases it took. -/
def beginShared (socket : σ) (options : Options) (config : TransportConfig) (now : Instant)
    (identity : ι) (crypto : γ) (resources : Resources) (handle : ConnectionHandle) :
    Except Disposition (Connection σ γ) × Resources × γ :=
  match resources.connection with
  | none => (.error (localFailure .resourceLimit), resources, crypto)
  | some (admission, resources) =>
    match resources.outbound 112 with
    | none =>
      (.error (localFailure .resourceLimit), resources.releaseConnection (some admission), crypto)
    | some (hello, resources) =>
      match now.checkedAdd config.handshakeTimeout with
      | none =>
        (.error (localFailure .internal),
          (resources.releaseOutbound (some hello)).releaseConnection (some admission), crypto)
      | some deadline =>
        match Handshake.begin options.role options.expectedPeer identity crypto with
        | (.error e, crypto) =>
          (.error (.handshake e),
            (resources.releaseOutbound (some hello)).releaseConnection (some admission), crypto)
        | (.ok (handshake, frame), crypto) =>
          (.ok { resources, admission := some admission, handle, socket := some socket
                 handshake := some handshake
                 handshakeOutput := [{ frame with reservation := some hello }]
                 deadline, timeout := config.handshakeTimeout }, resources, crypto)

def setHandle (c : Connection σ γ) (handle : ConnectionHandle) : Connection σ γ :=
  { c with handle }

/-- A call on the session, which sees the shared counters as they are now. -/
def withSession {α : Type} (c : Connection σ γ) (f : Session → α × Session) :
    Option α × Connection σ γ :=
  let out := c.session.map fun s => f (s.setResources c.resources)
  (out.map Prod.fst, { c with
    session := out.map Prod.snd
    resources := (out.map fun o => o.2.resources).getD c.resources })

def onSession (c : Connection σ γ) (f : Session → Session) : Connection σ γ :=
  (c.withSession fun s => ((), f s)).2

/-- Replacing the writer; a lease it no longer has is returned. -/
def setWriter (c : Connection σ γ) (writer : FrameWriter) : Connection σ γ :=
  { c with
    writer
    resources := if writer.reservation.isSome then c.resources
      else c.resources.releaseOutbound c.writer.reservation }

def clearOutput (c : Connection σ γ) : Connection σ γ :=
  { c with
    handshakeOutput := []
    resources := Session.releaseAll c.resources c.handshakeOutput }

def dropFrame (c : Connection σ γ) (f : WireFrame) : Connection σ γ :=
  { c with resources := c.resources.releaseOutbound f.reservation }

def popEvent (c : Connection σ γ) : Option Event × Connection σ γ :=
  match c.events with
  | e :: rest => (some e, { c with events := rest })
  | [] =>
    let out := c.withSession Session.popEvent
    (out.1.join, out.2)

def nextDeadline (c : Connection σ γ) : Option Instant :=
  if c.socket.isNone then none
  else if c.handshake.isSome || c.closing then some c.deadline
  else c.session.bind Session.nextDeadline

/-- The socket closes whatever it reports. The fuel covers every queued frame. -/
def release (c : Connection σ γ) : Connection σ γ :=
  let c := { c with
    socket := none
    traffic := { c.traffic with retired := c.socket.or c.traffic.retired }
    resources := c.resources.releaseConnection c.admission
    admission := none
    handshake := none
    integrity := none }
  let c := c.clearOutput.onSession fun s => s.discard s.outbound.length
  { c.setWriter {} with reader := {}, writing := none }

/-- The outcome of unfinished work, unless it was already reported. -/
def conclude (c : Connection σ γ) (d : Disposition) : Connection σ γ :=
  if c.session.isSome then c.onSession fun s => s.close (some d.failure) none
  else if c.closing then c
  else { c with events := c.events ++ [.connectionClosed c.handle.id (some d.failure)] }

def abort (c : Connection σ γ) (d : Disposition) : Connection σ γ :=
  if c.socket.isNone then c else (c.conclude d).release

def close (c : Connection σ γ) : Connection σ γ := c.abort (localFailure .connectionLost)

/-- Output framing and protection are known, so a response cannot be misread. -/
def safe (c : Connection σ γ) : Bool :=
  !c.writer.isBusy &&
    (c.integrity.isSome || c.handshake.any fun h => h.sendProtection == .untagged)

def pushOutput (c : Connection σ γ) (f : WireFrame) : Option (Connection σ γ) :=
  (c.resources.outbound (f.payload.length + handshakeOverhead)).map fun r =>
    { c with
      resources := r.2
      handshakeOutput := c.handshakeOutput ++ [{ f with reservation := some r.1 }] }

/-- The ERROR before there is a session; without room for it nothing is sent. -/
def respond (c : Connection σ γ) (d : Disposition) (code : ErrorCode) : Connection σ γ :=
  let c := { c with events := c.events ++ [.connectionClosed c.handle.id (some d.failure)] }
  match errorFrame code with
  | none => c
  | some f => (c.pushOutput f).getD c

def fail (c : Connection σ γ) (d : Disposition) (now : Instant) : Connection σ γ :=
  let d := d.withSafeOutput c.safe
  match d.response with
  | none => c.abort d
  | some code =>
    match now.checkedAdd c.timeout with
    | none => c.abort d
    | some deadline =>
      let c := { c with deadline, closing := true }.clearOutput
      if c.session.isSome then c.onSession fun s => s.close (some d.failure) (some code)
      else c.respond d code

def establish (c : Connection σ γ) : Connection σ γ :=
  match c.handshake with
  | none => c
  | some h =>
    match h.takeEstablished with
    | (none, h) => { c with handshake := some h }
    | (some e, _) =>
      { c with
        session := some ((Session.withHandle c.handle e.role e.localIdentity
          e.peerIdentity).setResources c.resources)
        integrity := some (.new e.keys)
        handshake := none }

/-- The next frame to write. -/
def nextFrame (c : Connection σ γ) : Option WireFrame × Connection σ γ :=
  if c.session.isSome then
    let out := c.withSession Session.popOutbound
    (out.1.join, out.2)
  else match c.handshakeOutput with
    | [] => (none, c)
    | f :: rest => (some f, { c with handshakeOutput := rest })

/-- Sealing with the keys there are, and handing over to the idle writer. -/
def startFrame (c : Connection σ γ) (f : WireFrame) (crypto : γ) :
    Except Disposition Unit × Connection σ γ :=
  let begin (c : Connection σ γ) (frame : WireFrame) (phase : FrameProtection) :
      Except Disposition Unit × Connection σ γ :=
    match c.writer.start frame phase with
    | (.error e, writer) => (.error (.framing e), { c with writer }.dropFrame frame)
    | (.ok (), writer) =>
      (.ok (), { c with
        writer
        writing := some (f.header.frameType, f.header.streamId, phase)
        traffic := { c.traffic with wrote := c.traffic.wrote ++ [(phase, frame)] } })
  match c.integrity with
  | none => begin c f .untagged
  | some i =>
    match i.seal_ f crypto with
    | (.error e, i) => (.error (.integrity e), { c with integrity := some i }.dropFrame f)
    | (.ok sealed, i) => begin { c with integrity := some i } sealed .tagged

/-- A frame was written completely. -/
def written (c : Connection σ γ) (now : Instant) : Bool × Connection σ γ :=
  match c.writing with
  | none => (true, c)
  | some (kind, id, phase) =>
    let c := { c with writing := none }
    let report (c : Connection σ γ) : Bool × Connection σ γ := (true, c.onSession (·.sent kind id))
    if phase = .tagged then
      match c.integrity with
      | none => report c
      | some i =>
        match i.sent with
        | (.error e, i) => (false, { c with integrity := some i }.abort (.integrity e))
        | (.ok (), i) => report { c with integrity := some i }
    else if c.closing then report c
    else match c.handshake with
      | none => report c
      | some h =>
        match h.sent kind with
        | (.error e, h) => (false, { c with handshake := some h }.fail (.handshake e) now)
        | (.ok (), h) => report { c with handshake := some h }

def flush (c : Connection σ γ) (now : Instant) : Bool × Connection σ γ :=
  match c.socket with
  | none => (false, c)
  | some socket =>
    match c.writer.pollFlush socket with
    | (.pending, writer, socket) => (false, { c with socket := some socket }.setWriter writer)
    | (.ready (.error e), writer, socket) =>
      (false, ({ c with socket := some socket }.setWriter writer).abort (.framing e))
    | (.ready (.ok ()), writer, socket) =>
      ({ c with socket := some socket }.setWriter writer).written now

def write (c : Connection σ γ) (crypto : γ) (now : Instant) : Bool × Connection σ γ :=
  if c.socket.isNone then (false, c)
  else if c.writer.isBusy then c.flush now
  else match c.nextFrame with
    | (none, c) => (false, if c.closing then c.release else c)
    | (some f, c) =>
      match c.startFrame f crypto with
      | (.error d, c) => (false, c.abort d)
      | (.ok (), c) => c.flush now

/-- The mode the next frame is read in. -/
def receivePhase (c : Connection σ γ) : FrameProtection :=
  match c.handshake with
  | none => .tagged
  | some h => h.receiveProtection

def readyToClose (c : Connection σ γ) : Bool :=
  c.session.any Session.readyToClose && !c.writer.isBusy

def finish (c : Connection σ γ) : Connection σ γ :=
  (c.onSession fun s => s.close none none).release

/-- The peer ended the stream between frames. -/
def ended (c : Connection σ γ) : Connection σ γ :=
  if c.readyToClose then c.finish else c.abort (localFailure .connectionLost)

/-- A session that a frame closed: its output is dropped with the socket when a
partial frame is in the way, and has a deadline otherwise. -/
def settle (c : Connection σ γ) (now : Instant) : Connection σ γ :=
  if c.session.any Session.closed then
    if c.writer.isBusy then c.release
    else { c with closing := true, deadline := (now.checkedAdd c.timeout).getD now }
  else c

def deliver (c : Connection σ γ) (frame : WireFrame) (now : Instant) (registry : Registry)
    (identity : ι) (crypto : γ) : Connection σ γ × ι × γ :=
  match c.handshake with
  | some h =>
    match h.receive frame identity crypto with
    | (.ok (some auth), h, identity, crypto) =>
      let c := { c with handshake := some h }
      ((c.pushOutput auth).getD (c.abort (localFailure .resourceLimit)), identity, crypto)
    | (.ok none, h, identity, crypto) => ({ c with handshake := some h }, identity, crypto)
    | (.error e, h, identity, crypto) =>
      ({ c with handshake := some h }.fail (.handshake e) now, identity, crypto)
  | none =>
    match c.integrity with
    | none => (c, identity, crypto)
    | some i =>
      match i.verify frame crypto with
      | (.error e, i) => ({ c with integrity := some i }.abort (.integrity e), identity, crypto)
      | (.ok verified, i) =>
        let c := { c with integrity := some i }
        ((c.onSession fun s => (s.receive verified registry now).2).settle now, identity, crypto)

/-- The connection after a poll of its reader. -/
def polled (c : Connection σ γ) (reader : FrameReader) (socket : σ) : Connection σ γ :=
  { c with reader, socket := some socket }

def heard (c : Connection σ γ) (frame : WireFrame) : Connection σ γ :=
  { c with traffic := { c.traffic with heard := c.traffic.heard ++ [(c.receivePhase, frame)] } }

def faulted (c : Connection σ γ) (e : FramingError) : Connection σ γ :=
  { c with traffic := { c.traffic with faults := c.traffic.faults ++ [e] } }

def read (c : Connection σ γ) (now : Instant) (registry : Registry) (identity : ι) (crypto : γ) :
    Bool × Connection σ γ × ι × γ :=
  if c.receivePhase = .tagged ∧ c.integrity.isNone then (false, c, identity, crypto)
  else match c.socket with
    | none => (false, c, identity, crypto)
    | some socket =>
      match c.reader.pollFrame socket c.receivePhase with
      | (.pending, reader, socket) => (false, c.polled reader socket, identity, crypto)
      | (.ready (.error e), reader, socket) =>
        (true, ((c.polled reader socket).faulted e).fail (.framing e) now, identity, crypto)
      | (.ready (.ok none), reader, socket) =>
        (true, (c.polled reader socket).ended, identity, crypto)
      | (.ready (.ok (some frame)), reader, socket) =>
        (true,
          ((c.polled reader socket).heard frame).deliver frame now registry identity crypto)

/-- The end of one turn: a finished session gives up its socket, and without
progress there is nothing to do until something outside changes. -/
def turnEnd (c : Connection σ γ) (progressed : Bool) : Option (Poll Unit) × Connection σ γ :=
  let c := c.establish
  let c := if c.readyToClose then c.finish else c
  if c.socket.isNone then (some (.ready ()), c)
  else (if progressed then none else some .pending, c)

/-- One turn of the loop of `poll`; an answer ends the loop. -/
def turn (c : Connection σ γ) (now : Instant) (registry : Registry) (identity : ι) (crypto : γ) :
    Option (Poll Unit) × Connection σ γ × ι × γ :=
  let out := c.write crypto now
  let c := out.2.establish
  if c.socket.isNone then (some (.ready ()), c, identity, crypto)
  else if c.closing then
    let last := c.turnEnd out.1
    (last.1, last.2, identity, crypto)
  else
    let input := c.read now registry identity crypto
    let last := input.2.1.turnEnd (out.1 || input.1)
    (last.1, last.2, input.2.2)

def turns (now : Instant) (registry : Registry) :
    Nat → Connection σ γ → ι → γ → Poll Unit × Connection σ γ × ι × γ
  | 0, c, identity, crypto => (.pending, c, identity, crypto)
  | n + 1, c, identity, crypto =>
    match c.turn now registry identity crypto with
    | (some answer, rest) => (answer, rest)
    | (none, c, identity, crypto) => turns now registry n c identity crypto

def poll (c : Connection σ γ) (now : Instant) (registry : Registry) (identity : ι) (crypto : γ) :
    Poll Unit × Connection σ γ × ι × γ :=
  if c.socket.isNone then (.ready (), c, identity, crypto)
  else if (c.handshake.isSome || c.closing) && c.deadline ≤ now then
    (.ready (), c.abort (localFailure .deadlineExceeded), identity, crypto)
  else turns now registry 32 (c.onSession (·.tick now)) identity crypto

end Connection

/-- The calls a consumer makes on a session it was lent. -/
def Call.isStream : Call → Bool
  | .open_ _ _ | .send _ _ _ | .end_ _ _ | .cancel _ _ _ | .ping _ _ _ | .drain _ | .popEvent
  | .popStreamEvent _ => true
  | _ => false

/-- A call without the history a party keeps. -/
def Session.perform (s : Session) (call : Call) : Session := ((Party.start s 0).run call).session

/-- A call on the session that `session()` lends. -/
def Connection.request {σ γ : Type} [Cryptography γ] (c : Connection σ γ) (call : Call) :
    Connection σ γ :=
  c.onSession (·.perform call)

end TalkSphere
