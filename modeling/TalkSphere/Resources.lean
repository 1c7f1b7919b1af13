import TalkSphere.Header

/-! Finite admission budgets. The counters are shared by every connection of an
instance; a holder of `Resources` here has the value the shared counters have
at the moment of the call. -/

namespace TalkSphere

def maxFrameBytes : Nat := headerBytes + maxPayloadBytes + integrityTagBytes

structure ResourceLimits where
  connections : Nat
  streamsPerConnection : Nat
  outboundBytes : Nat
  bufferedBytesPerStream : Nat
  deriving DecidableEq, Repr

inductive Limit
  | connections
  | streamsPerConnection
  | outboundBytes
  | bufferedBytesPerStream
  deriving DecidableEq, Repr

inductive ConfigError
  | zeroHandshakeTimeout
  | limitTooSmall (limit : Limit) (minimum : Nat)
  deriving DecidableEq, Repr

def ResourceLimits.required (limits : ResourceLimits) : List (Limit × Nat × Nat) :=
  [(.connections, limits.connections, 1),
   (.streamsPerConnection, limits.streamsPerConnection, 1),
   (.outboundBytes, limits.outboundBytes, maxFrameBytes),
   (.bufferedBytesPerStream, limits.bufferedBytesPerStream, maxPayloadBytes)]

structure TransportConfig where
  limits : ResourceLimits
  handshakeTimeout : Duration
  deriving DecidableEq, Repr

def TransportConfig.new (limits : ResourceLimits) (handshakeTimeout : Duration) :
    Except ConfigError TransportConfig :=
  if handshakeTimeout = 0 then .error .zeroHandshakeTimeout
  else match limits.required.find? (fun r => r.2.1 < r.2.2) with
    | some r => .error (.limitTooSmall r.1 r.2.2)
    | none => .ok ⟨limits, handshakeTimeout⟩

structure Reservation where
  amount : Nat
  deriving DecidableEq, Repr

/-- `underflowed` is not in the source: it records that some release took more
than its counter held, after which the counter has wrapped. -/
structure Resources where
  limits : ResourceLimits
  connectionsUsed : Nat := 0
  outboundUsed : Nat := 0
  underflowed : Bool := false
  deriving DecidableEq, Repr

/-- `fetch_sub` on the platform size type. -/
def wrappingSub (used amount : Nat) : Nat :=
  if amount ≤ used then used - amount else used + (usizeMax + 1) - amount

def reserve (used amount limit : Nat) : Option Nat :=
  if used + amount ≤ limit then some (used + amount) else none

namespace Resources

def connection (r : Resources) : Option (Reservation × Resources) :=
  (reserve r.connectionsUsed 1 r.limits.connections).map fun used =>
    (⟨1⟩, { r with connectionsUsed := used })

def outbound (r : Resources) (amount : Nat) : Option (Reservation × Resources) :=
  (reserve r.outboundUsed amount r.limits.outboundBytes).map fun used =>
    (⟨amount⟩, { r with outboundUsed := used })

/-- Dropping the last owner of an output reservation. -/
def releaseOutbound (r : Resources) : Option Reservation → Resources
  | some lease => { r with
      outboundUsed := wrappingSub r.outboundUsed lease.amount
      underflowed := r.underflowed || r.outboundUsed < lease.amount }
  | none => r

def releaseConnection (r : Resources) : Option Reservation → Resources
  | some lease => { r with
      connectionsUsed := wrappingSub r.connectionsUsed lease.amount
      underflowed := r.underflowed || r.connectionsUsed < lease.amount }
  | none => r

theorem outbound_eq_some {r r' : Resources} {amount : Nat} {lease : Reservation}
    (h : r.outbound amount = some (lease, r')) :
    lease = ⟨amount⟩ ∧ r' = { r with outboundUsed := r.outboundUsed + amount } ∧
      r.outboundUsed + amount ≤ r.limits.outboundBytes := by
  simp only [outbound, reserve] at h
  split_ifs at h with hfit
  · simp only [Option.map_some, Option.some.injEq, Prod.mk.injEq] at h
    exact ⟨h.1.symm, h.2.symm, hfit⟩
  · cases h

theorem outbound_limits {r r' : Resources} {amount : Nat} {lease : Reservation}
    (h : r.outbound amount = some (lease, r')) : r'.limits = r.limits := by
  rw [(outbound_eq_some h).2.1]

theorem outbound_eq_none {r : Resources} {amount : Nat} :
    r.outbound amount = none ↔ r.limits.outboundBytes < r.outboundUsed + amount := by
  simp only [outbound, reserve]
  split_ifs with hfit <;> simp <;> omega

theorem releaseOutbound_covered {r : Resources} {amount : Nat} (h : amount ≤ r.outboundUsed) :
    r.releaseOutbound (some ⟨amount⟩) = { r with outboundUsed := r.outboundUsed - amount } := by
  have hn : ¬ r.outboundUsed < amount := by omega
  simp only [releaseOutbound, wrappingSub, if_pos h, hn, decide_false, Bool.or_false]

theorem outbound_release {r r' : Resources} {amount : Nat} {lease : Reservation}
    (h : r.outbound amount = some (lease, r')) : r'.releaseOutbound (some lease) = r := by
  obtain ⟨rfl, rfl, -⟩ := outbound_eq_some h
  rw [releaseOutbound_covered (by simp only; omega)]
  simp only [Nat.add_sub_cancel]

theorem connection_release {r r' : Resources} {lease : Reservation}
    (h : r.connection = some (lease, r')) : r'.releaseConnection (some lease) = r := by
  simp only [connection, reserve] at h
  split_ifs at h
  · obtain ⟨rfl, rfl⟩ : ⟨1⟩ = lease ∧ _ = r' := by simpa using h
    simp [releaseConnection, wrappingSub]
  · cases h

@[simp] theorem releaseOutbound_limits (r : Resources) (lease : Option Reservation) :
    (r.releaseOutbound lease).limits = r.limits := by
  cases lease <;> rfl

end Resources

end TalkSphere
