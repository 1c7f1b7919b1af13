import TalkSphere.Framing
import TalkSphere.Registry
import TalkSphere.StreamIds

/-! The state of one authenticated connection and the private operations that
edit it. Every function returns the state it leaves behind, also on an error. -/

namespace TalkSphere

open Std (TreeMap)

inductive SessionError
  | id (e : IdError)
  | owner
  | closed
  | draining
  | authority (e : TransportError)
  | invalidData
  | capacity
  | protocol
  | framing (e : FramingError)
  deriving DecidableEq, Repr

structure StreamState where
  handle : StreamHandle
  localOpen : Bool
  remoteOpen : Bool
  localEndWritten : Bool
  deriving DecidableEq, Repr

structure Session where
  lastOutput : Option UInt32
  resources : Resources
  acceptedRemote : UInt32
  peerGoaway : Option UInt32
  drainFailure : Option Failure
  goawaySent : Bool
  goawayWritten : Bool
  pings : TreeMap Token (Instant × Instant)
  now : Option Instant
  closed : Bool
  handle : ConnectionHandle
  context : PeerContext
  ids : StreamIds
  streams : TreeMap UInt32 StreamState
  events : List Event
  outbound : List WireFrame

/-- Payload, header and tag of one queued frame. -/
def queuedOverhead : Nat := 28

def saturatingMul (a b : Nat) : Nat := min (a * b) usizeMax
def saturatingAdd (a b : Nat) : Nat := min (a + b) usizeMax

def frame (kind : FrameType) (id : UInt32) (payload : List UInt8) : Except SessionError WireFrame :=
  match FrameHeader.new kind id (UInt32.ofNat payload.length) with
  | .error e => .error (.framing (.header e))
  | .ok header =>
    match WireFrame.new header payload none with
    | .error e => .error (.framing e)
    | .ok f => .ok f

def failureCode : ErrorCode → FailureCode
  | .authenticationFailed => .authenticationFailed
  | .frameSizeError => .frameTooLarge
  | .unsupportedProtocol => .unsupportedProtocol
  | .streamStateError => .streamState
  | .refusedStream => .refused
  | .internalError => .internal
  | .idExhausted => .idExhausted
  | .resourceLimit => .resourceLimit
  | .cancelled => .cancelled
  | .protocolError => .protocolViolation
  | .noError => .protocolViolation

namespace Session

def withHandle (handle : ConnectionHandle) (role : ConnectionRole)
    (localIdentity peerIdentity : IdentityId) : Session :=
  let context : PeerContext := ⟨handle.id, role, localIdentity, peerIdentity⟩
  { lastOutput := none
    resources := { limits := {
      connections := 1
      streamsPerConnection := 256
      outboundBytes := 4 * (maxPayloadBytes + 28)
      bufferedBytesPerStream := maxPayloadBytes } }
    acceptedRemote := 0
    peerGoaway := none
    drainFailure := none
    goawaySent := false
    goawayWritten := false
    pings := ∅
    now := none
    closed := false
    handle
    context
    ids := StreamIds.new role
    streams := ∅
    events := [.authenticated context]
    outbound := [] }

def setResources (s : Session) (resources : Resources) : Session := { s with resources }

def eventLimit (s : Session) : Nat :=
  saturatingAdd (saturatingMul s.resources.limits.streamsPerConnection 4) 130

def queue (s : Session) (output : WireFrame) : Except SessionError Unit × Session :=
  match s.resources.outbound (output.payload.length + queuedOverhead) with
  | none => (.error .capacity, s)
  | some (lease, resources) =>
    (.ok (), { s with
      resources
      outbound := s.outbound ++ [{ output with reservation := some lease }] })

def add (s : Session) (id : UInt32) (owner : StreamOwner) (protocol : Protocol) :
    Except SessionError StreamHandle × Session :=
  let s := if s.ids.isLocal id then s else { s with acceptedRemote := id }
  if h : id = 0 then (.error .protocol, s)
  else
    let stream : StreamHandle := ⟨s.handle.id, owner, id, h⟩
    (.ok stream, { s with
      streams := s.streams.insert id ⟨stream, true, true, false⟩
      events := s.events ++ [.streamOpened s.context stream protocol] })

def refuse (s : Session) (id : UInt32) (code : ErrorCode) : Except SessionError Unit × Session :=
  match ErrorPayload.new code "" with
  | .error _ => (.error .protocol, s)
  | .ok payload =>
    match frame .error id payload.encode with
    | .error e => (.error e, s)
    | .ok output => s.queue output

/-- Frames `terminate` keeps: those of other streams, and an unsent OPEN. -/
def retained (id : UInt32) (f : WireFrame) : Bool :=
  f.header.streamId != id || f.header.frameType == .open_

def releaseAll (r : Resources) (frames : List WireFrame) : Resources :=
  frames.foldl (fun r f => r.releaseOutbound f.reservation) r

def terminate (s : Session) (id : UInt32) (outcome : StreamOutcome) : Session :=
  let s := { s with
    outbound := s.outbound.filter (retained id)
    resources := releaseAll s.resources (s.outbound.filter (fun f => !retained id f)) }
  match s.streams[id]? with
  | none => s
  | some state => { s with
      streams := s.streams.erase id
      events := s.events ++ [.streamClosed state.handle outcome] }

def failStream (s : Session) (id : UInt32) (wire : ErrorCode) (code : FailureCode) :
    Except SessionError Unit × Session :=
  (s.terminate id (.failed ⟨.local_, code⟩)).refuse id wire

def complete (s : Session) (id : UInt32) : Session :=
  match s.streams[id]? with
  | none => s
  | some state =>
    if !state.remoteOpen && state.localEndWritten then
      { s with
        streams := s.streams.erase id
        events := s.events ++ [.streamClosed state.handle .completed] }
    else s

/-- The outcomes `close` queues: one per outstanding ping, one per open stream,
and the closure of the connection. -/
def closingEvents (s : Session) (failure : Option Failure) : List Event :=
  let unfinished := failure.getD ⟨.local_, .connectionLost⟩
  s.pings.toList.map (fun e => .pingFinished s.handle.id e.1 (.error unfinished)) ++
    s.streams.toList.map (fun e => .streamClosed e.2.handle (.failed unfinished)) ++
    [.connectionClosed s.handle.id failure]

def close (s : Session) (failure : Option Failure) (response : Option ErrorCode) : Session :=
  if s.closed then s
  else
    let failure := failure.or s.drainFailure
    let s := { s with
      closed := true
      resources := releaseAll s.resources s.outbound
      outbound := []
      pings := ∅
      streams := ∅
      events := s.events ++ s.closingEvents failure }
    match response with
    | none => s
    | some code =>
      match ErrorPayload.new code "" with
      | .error _ => s
      | .ok payload =>
        match frame .error 0 payload.encode with
        | .error _ => s
        | .ok output => (s.queue output).2

end Session

end TalkSphere
