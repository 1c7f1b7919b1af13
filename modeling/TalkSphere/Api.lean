import Std.Data.TreeMap
import Mathlib.Algebra.Group.Nat.Defs
import Mathlib.Tactic.SplitIfs

/-! The local vocabulary of the transport: roles, reasons, failures, capability
handles and the events queued for consumers. Process-local capabilities compare
by allocation, so an instance is the number of its allocation. Instants and
durations count nanoseconds from the start of the clock. -/

namespace TalkSphere

abbrev Instant := Nat
abbrev Duration := Nat

/-- The last instant a seconds/nanoseconds pair can hold. -/
def instantMax : Nat := 2 ^ 63 * 10 ^ 9 - 1

def Instant.checkedAdd (now : Instant) (d : Duration) : Option Instant :=
  if now + d ≤ instantMax then some (now + d) else none

def Instant.checkedDurationSince (now earlier : Instant) : Option Duration :=
  if earlier ≤ now then some (now - earlier) else none

inductive ConnectionRole
  | initiator
  | acceptor
  deriving DecidableEq, Repr

def ConnectionRole.opposite : ConnectionRole → ConnectionRole
  | .initiator => .acceptor
  | .acceptor => .initiator

structure IdentityId where
  bytes : Vector UInt8 32
  deriving DecidableEq, Repr

/-- Identities are ordered by their bytes. -/
instance : Ord IdentityId := ⟨fun a b => compare a.bytes b.bytes⟩

instance : Std.TransOrd IdentityId where
  eq_swap := Std.OrientedOrd.eq_swap (α := Vector UInt8 32)
  isLE_trans := Std.TransOrd.isLE_trans (α := Vector UInt8 32)

instance : Std.LawfulEqOrd IdentityId where
  compare_self := Std.ReflOrd.compare_self (α := Vector UInt8 32)
  eq_of_compare {a b} h := by
    have hbytes : a.bytes = b.bytes := Std.LawfulEqOrd.eq_of_compare h
    cases a
    cases b
    exact congrArg _ hbytes

inductive ExpectedPeer
  | known (id : IdentityId)
  | unpinned
  deriving DecidableEq, Repr

structure Protocol where
  id : String
  version : UInt32
  deriving DecidableEq, Repr

inductive CancellationReason
  | cancelled
  | resourceLimit
  | internalError
  deriving DecidableEq, Repr

inductive ShutdownReason
  | normal
  | idExhausted
  | resourceLimit
  | internalError
  deriving DecidableEq, Repr

inductive Dependency
  | socket
  | clock
  | identity
  | cryptography
  deriving DecidableEq, Repr

inductive DependencyError
  | unavailable
  | denied
  | invalidInput
  | verificationFailed
  deriving DecidableEq, Repr

inductive FailureOrigin
  | local_
  | peer
  | dependency (d : Dependency)
  deriving DecidableEq, Repr

inductive FailureCode
  | protocolViolation
  | authenticationFailed
  | integrityFailed
  | frameTooLarge
  | unsupportedProtocol
  | streamState
  | refused
  | cancelled
  | resourceLimit
  | idExhausted
  | sequenceExhausted
  | truncatedFrame
  | connectionLost
  | deadlineExceeded
  | dependencyUnavailable
  | internal
  deriving DecidableEq, Repr

structure Failure where
  origin : FailureOrigin
  code : FailureCode
  deriving DecidableEq, Repr

inductive StreamOutcome
  | completed
  | cancelled (origin : FailureOrigin) (reason : CancellationReason)
  | failed (failure : Failure)
  deriving DecidableEq, Repr

structure ConnectionId where
  instanceId : Nat
  deriving DecidableEq, Repr

structure ConnectionHandle where
  id : ConnectionId
  deriving DecidableEq, Repr

structure ListenerHandle where
  instanceId : Nat
  deriving DecidableEq, Repr

structure StreamOwner where
  instanceId : Nat
  deriving DecidableEq, Repr

/-- The wire id is nonzero in the source by its type. -/
structure StreamHandle where
  connection : ConnectionId
  owner : StreamOwner
  wireId : UInt32
  wireId_ne_zero : wireId ≠ 0
  deriving DecidableEq, Repr

inductive ErrorKind
  | interrupted
  | invalidData
  | writeZero
  | timedOut
  | other (code : Nat)
  deriving DecidableEq, Repr

inductive TransportError
  | wrongConnection
  | wrongStreamOwner
  | invalidEndpoint
  | invalidRequest
  | io (kind : ErrorKind)
  | startup (failure : Failure)
  | backpressure
  | closed
  deriving DecidableEq, Repr

def StreamHandle.authorize (stream : StreamHandle) (connection : ConnectionId)
    (owner : StreamOwner) : Except TransportError Unit :=
  if stream.connection ≠ connection then .error .wrongConnection
  else if stream.owner ≠ owner then .error .wrongStreamOwner
  else .ok ()

structure PeerContext where
  connection : ConnectionId
  role : ConnectionRole
  localIdentity : IdentityId
  peerIdentity : IdentityId
  deriving DecidableEq, Repr

abbrev Token := Vector UInt8 8

instance decidableEqExcept {ε α : Type} [DecidableEq ε] [DecidableEq α] :
    DecidableEq (Except ε α)
  | .ok a, .ok b => decidable_of_iff (a = b) ⟨congrArg _, Except.ok.inj⟩
  | .error a, .error b => decidable_of_iff (a = b) ⟨congrArg _, Except.error.inj⟩
  | .ok _, .error _ => .isFalse nofun
  | .error _, .ok _ => .isFalse nofun

inductive Event
  | incomingConnection (handle : ConnectionHandle)
  | authenticated (context : PeerContext)
  | streamOpened (context : PeerContext) (stream : StreamHandle) (protocol : Protocol)
  | data (stream : StreamHandle) (bytes : List UInt8)
  | remoteEnd (stream : StreamHandle)
  | streamClosed (stream : StreamHandle) (outcome : StreamOutcome)
  | pingFinished (connection : ConnectionId) (token : Token) (result : Except Failure Duration)
  | connectionClosed (connection : ConnectionId) (failure : Option Failure)
  | listenerClosed (listener : ListenerHandle) (failure : Option Failure)
  deriving DecidableEq

/-- The stream an event is delivered for; connection events have none. -/
def Event.stream? : Event → Option StreamHandle
  | .streamOpened _ stream _ => some stream
  | .data stream _ => some stream
  | .remoteEnd stream => some stream
  | .streamClosed stream _ => some stream
  | _ => none

end TalkSphere
