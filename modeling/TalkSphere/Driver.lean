import TalkSphere.Connection

/-! The control of a transport instance: requests, outgoing attempts, listeners and the
rounds over its connections. Wakers are left out: a poll may come at any time. A
capability is the number of its allocation, so the driver counts what it has allocated. -/

namespace TalkSphere

structure SocketAddr where
  ip : List UInt8
  port : UInt16
  deriving DecidableEq, Repr

/-- Sockets, with the attempts and listeners that yield them. What the source boxes is the
state of that object here. -/
class SocketProvider (π : Type) where
  Socket : Type
  io : TalkSphere.Socket Socket
  Connecting : Type
  Listener : Type
  connect : π → SocketAddr → Except ErrorKind Connecting × π
  listen : π → SocketAddr → Except ErrorKind Listener × π
  pollConnected : Connecting → Poll (Except ErrorKind Socket) × Connecting
  localAddr : Listener → Except ErrorKind SocketAddr
  pollAccept : Listener → Poll (Except ErrorKind Socket) × Listener
  close : Listener → Except ErrorKind Unit

instance (π : Type) [SocketProvider π] : Socket (SocketProvider.Socket π) := SocketProvider.io

class Clock (τ : Type) where
  now : τ → Instant
  pollDeadline : τ → Instant → Poll Unit × τ

structure Dependencies (π τ ι γ : Type) where
  sockets : π
  clock : τ
  identity : ι
  cryptography : γ

structure ConnectRequest where
  endpoint : SocketAddr
  expectedPeer : ExpectedPeer
  port_ne_zero : endpoint.port ≠ 0
  deriving DecidableEq, Repr

def ConnectRequest.new (endpoint : SocketAddr) (expectedPeer : ExpectedPeer) :
    Except TransportError ConnectRequest :=
  if h : endpoint.port = 0 then .error .invalidEndpoint else .ok ⟨endpoint, expectedPeer, h⟩

inductive StreamAction
  | data (bytes : List UInt8)
  | end_
  | cancel (reason : CancellationReason)
  deriving DecidableEq, Repr

inductive Request (σ : Type)
  | connect (request : ConnectRequest)
  | listen (endpoint : SocketAddr)
  | accept (socket : σ) (expectedPeer : ExpectedPeer)
  | stopListening (listener : ListenerHandle)
  | registerProtocol (protocol : Protocol)
  | openStream (connection : ConnectionHandle) (owner : StreamOwner)
  | stream (owner : StreamOwner) (stream : StreamHandle) (action : StreamAction)
  | ping (connection : ConnectionHandle) (token : Token) (timeout : Duration)
  | drain (connection : ConnectionHandle) (reason : ShutdownReason)
  | close (connection : ConnectionHandle)

inductive Accepted
  | connection (handle : ConnectionHandle)
  | listener (handle : ListenerHandle) (localAddr : SocketAddr)
  | registration (owner : StreamOwner)
  | stream (handle : StreamHandle)
  | queued
  deriving DecidableEq, Repr

/-- Local rejections of a session, as the control reports them. -/
def sessionError : SessionError → TransportError
  | .capacity => .backpressure
  | .authority e => e
  | .owner => .wrongStreamOwner
  | .closed => .closed
  | _ => .invalidRequest

/-- The first entry that matches, and the others. -/
def removeFirst {α : Type} (p : α → Bool) : List α → Option (α × List α)
  | [] => none
  | a :: rest => if p a then some (a, rest) else (removeFirst p rest).map fun r => (r.1, a :: r.2)

/-- Change of the first entry that matches. -/
def updateFirst {α β : Type} (p : α → Bool) (f : α → β × α) : List α → Option (β × List α)
  | [] => none
  | a :: rest =>
    if p a then some ((f a).1, (f a).2 :: rest)
    else (updateFirst p f rest).map fun r => (r.1, a :: r.2)

theorem removeFirst_some {α : Type} {p : α → Bool} {l rest : List α} {a : α}
    (h : removeFirst p l = some (a, rest)) :
    ∃ before after, l = before ++ a :: after ∧ rest = before ++ after ∧ p a = true := by
  induction l generalizing a rest with
  | nil => cases h
  | cons b l ih =>
    rw [removeFirst] at h
    split_ifs at h with hp
    · obtain ⟨rfl, rfl⟩ := Prod.mk.inj (Option.some.inj h)
      exact ⟨[], l, rfl, rfl, hp⟩
    · obtain ⟨r, hr, he⟩ := Option.map_eq_some_iff.mp h
      obtain ⟨rfl, rfl⟩ := Prod.mk.inj he
      obtain ⟨before, after, rfl, hrest, ha⟩ := ih hr
      exact ⟨b :: before, after, rfl, by rw [hrest]; rfl, ha⟩

theorem updateFirst_some {α β : Type} {p : α → Bool} {f : α → β × α} {l l' : List α} {b : β}
    (h : updateFirst p f l = some (b, l')) :
    ∃ before a after, l = before ++ a :: after ∧ p a = true ∧ b = (f a).1 ∧
      l' = before ++ (f a).2 :: after := by
  induction l generalizing b l' with
  | nil => cases h
  | cons c l ih =>
    rw [updateFirst] at h
    split_ifs at h with hp
    · obtain ⟨rfl, rfl⟩ := Prod.mk.inj (Option.some.inj h)
      exact ⟨[], c, l, rfl, hp, rfl, rfl⟩
    · obtain ⟨r, hr, he⟩ := Option.map_eq_some_iff.mp h
      obtain ⟨rfl, rfl⟩ := Prod.mk.inj he
      obtain ⟨before, a, after, rfl, ha, hb, hl⟩ := ih hr
      exact ⟨c :: before, a, after, rfl, ha, hb, by rw [hl]; rfl⟩

/-- An outgoing attempt. -/
structure Pending (α : Type) where
  handle : ConnectionHandle
  attempt : α
  expected : ExpectedPeer
  deadline : Instant
  reservation : Reservation

structure Driver (π τ ι γ : Type) [SocketProvider π] [Cryptography γ] where
  dependencies : Dependencies π τ ι γ
  config : TransportConfig
  resources : Resources
  registry : Registry := {}
  registrations : Nat := 0
  connections : List (Connection (SocketProvider.Socket π) γ) := []
  pending : List (Pending (SocketProvider.Connecting π)) := []
  listeners : List (ListenerHandle × SocketProvider.Listener π) := []
  events : List Event := []
  allocated : Nat := 0

namespace Driver

variable {π τ ι γ : Type} [SocketProvider π] [Clock τ] [Identity ι] [Cryptography γ]

def new (config : TransportConfig) (dependencies : Dependencies π τ ι γ) : Driver π τ ι γ :=
  { dependencies, config, resources := { limits := config.limits } }

def push (d : Driver π τ ι γ) (e : Event) : Driver π τ ι γ := { d with events := d.events ++ [e] }

/-- Starting the protocol on a socket, under the next allocated handle. -/
def begin (d : Driver π τ ι γ) (socket : SocketProvider.Socket π) (options : Options)
    (now : Instant) :
    Except Disposition (Connection (SocketProvider.Socket π) γ) × Driver π τ ι γ :=
  let out := Connection.beginShared socket options d.config now d.dependencies.identity
    d.dependencies.cryptography d.resources ⟨⟨d.allocated⟩⟩
  (out.1, { d with
    resources := out.2.1
    dependencies := { d.dependencies with cryptography := out.2.2 }
    allocated := d.allocated + 1 })

/-- The cause reported for an attempt without a socket. -/
def connectFailure (kind : ErrorKind) : Failure :=
  ⟨.local_, if kind = .timedOut then .deadlineExceeded else .connectionLost⟩

/-- One attempt; what is still waiting goes back to the table. -/
def pollConnect (d : Driver π τ ι γ) (now : Instant)
    (p : Pending (SocketProvider.Connecting π)) : Driver π τ ι γ :=
  let polled : Poll (Except ErrorKind (SocketProvider.Socket π)) × SocketProvider.Connecting π :=
    if p.deadline ≤ now then (.ready (.error .timedOut), p.attempt)
    else SocketProvider.pollConnected p.attempt
  match polled.1 with
  | .pending => { d with pending := d.pending ++ [{ p with attempt := polled.2 }] }
  | .ready result =>
    let d := { d with resources := d.resources.releaseConnection (some p.reservation) }
    match result with
    | .error kind => d.push (.connectionClosed p.handle.id (some (connectFailure kind)))
    | .ok socket =>
      match d.begin socket ⟨.initiator, p.expected⟩ now with
      | (.ok c, d) => { d with connections := d.connections ++ [c.setHandle p.handle] }
      | (.error e, d) => d.push (.connectionClosed p.handle.id (some e.failure))

def pollConnects (d : Driver π τ ι γ) (now : Instant) : Driver π τ ι γ :=
  d.pending.foldl (fun d p => d.pollConnect now p) { d with pending := [] }

/-- A socket from a listener. A failure has a handle that nobody was given. -/
def incoming (d : Driver π τ ι γ) (socket : SocketProvider.Socket π) (now : Instant) :
    Driver π τ ι γ :=
  match d.begin socket ⟨.acceptor, .unpinned⟩ now with
  | (.ok c, d) => { d.push (.incomingConnection c.handle) with connections := d.connections ++ [c] }
  | (.error e, d) =>
    { d.push (.connectionClosed ⟨d.allocated⟩ (some e.failure)) with allocated := d.allocated + 1 }

def full (d : Driver π τ ι γ) : Bool :=
  d.connections.length + d.pending.length ≥ d.config.limits.connections

/-- Listeners in their order, of which those that failed are dropped; without room for
another connection the rest waits. -/
def pollListenersFrom (now : Instant) :
    List (ListenerHandle × SocketProvider.Listener π) → Driver π τ ι γ → Driver π τ ι γ
  | [], d => d
  | (handle, listener) :: rest, d =>
    if d.resources.connectionsUsed ≥ d.config.limits.connections ∨ d.full then
      { d with listeners := d.listeners ++ (handle, listener) :: rest }
    else match SocketProvider.pollAccept listener with
      | (.pending, listener) =>
        pollListenersFrom now rest { d with listeners := d.listeners ++ [(handle, listener)] }
      | (.ready (.error _), _) =>
        pollListenersFrom now rest
          (d.push (.listenerClosed handle (some ⟨.local_, .connectionLost⟩)))
      | (.ready (.ok socket), listener) =>
        let d := d.incoming socket now
        pollListenersFrom now rest { d with listeners := d.listeners ++ [(handle, listener)] }

def pollListeners (d : Driver π τ ι γ) (now : Instant) : Driver π τ ι γ :=
  pollListenersFrom now d.listeners { d with listeners := [] }

def armTimer (d : Driver π τ ι γ) : Driver π τ ι γ :=
  match (d.pending.map Pending.deadline ++
      d.connections.filterMap Connection.nextDeadline).min? with
  | none => d
  | some deadline =>
    { d with dependencies := { d.dependencies with
        clock := (Clock.pollDeadline d.dependencies.clock deadline).2 } }

/-- Polling one connection and reading one of its events. -/
def serveOne (d : Driver π τ ι γ) (now : Instant)
    (c : Connection (SocketProvider.Socket π) γ) (rest : List (Connection (SocketProvider.Socket π) γ)) :
    Option Event × Driver π τ ι γ :=
  let out := { c with resources := d.resources }.poll now d.registry d.dependencies.identity
    d.dependencies.cryptography
  let read := out.2.1.popEvent
  (read.1, { d with
    dependencies := { d.dependencies with identity := out.2.2.1, cryptography := out.2.2.2 }
    resources := read.2.resources
    connections := if out.1 = .pending ∨ read.1.isSome then rest ++ [read.2] else rest })

/-- At most one round over the connections, until one has an event. -/
def serve (now : Instant) : Nat → Driver π τ ι γ → Option Event × Driver π τ ι γ
  | 0, d => (none, d)
  | n + 1, d =>
    match d.connections with
    | [] => (none, d)
    | c :: rest =>
      match d.serveOne now c rest with
      | (some e, d) => (some e, d)
      | (none, d) => serve now n d

/-- The oldest event of the driver itself. -/
def popEvent (d : Driver π τ ι γ) : Option Event × Driver π τ ι γ :=
  (d.events.head?, { d with events := d.events.tail })

def pollEvent (d : Driver π τ ι γ) : Poll (Option Event) × Driver π τ ι γ :=
  match d.popEvent with
  | (some e, d) => (.ready (some e), d)
  | (none, d) =>
    let now := Clock.now d.dependencies.clock
    let d := (d.pollConnects now).pollListeners now
    match d.popEvent with
    | (some e, d) => (.ready (some e), d.armTimer)
    | (none, d) =>
      match serve now d.connections.length d with
      | (some e, d) => (.ready (some e), d.armTimer)
      | (none, d) =>
        match d.armTimer.popEvent with
        | (some e, d) => (.ready (some e), d)
        | (none, d) => (.pending, d)

def register (d : Driver π τ ι γ) (protocol : Protocol) :
    Except TransportError Accepted × Driver π τ ι γ :=
  if d.registrations ≥ 256 then (.error .backpressure, d)
  else match d.registry.register protocol ⟨d.allocated⟩ with
    | (.error _, _) => (.error .invalidRequest, d)
    | (.ok owner, registry) =>
      (.ok (.registration owner), { d with
        registry, registrations := d.registrations + 1, allocated := d.allocated + 1 })

/-- An admission that is not kept is returned on every exit. -/
def connect (d : Driver π τ ι γ) (request : ConnectRequest) :
    Except TransportError Accepted × Driver π τ ι γ :=
  if d.full then (.error .backpressure, d)
  else match d.resources.connection with
    | none => (.error .backpressure, d)
    | some (reservation, resources) =>
      match (Clock.now d.dependencies.clock).checkedAdd d.config.handshakeTimeout with
      | none =>
        (.error .invalidRequest, { d with
          resources := resources.releaseConnection (some reservation) })
      | some deadline =>
        match SocketProvider.connect d.dependencies.sockets request.endpoint with
        | (.error kind, sockets) =>
          (.error (.io kind), { d with
            resources := resources.releaseConnection (some reservation)
            dependencies := { d.dependencies with sockets } })
        | (.ok attempt, sockets) =>
          (.ok (.connection ⟨⟨d.allocated⟩⟩), { d with
            resources
            dependencies := { d.dependencies with sockets }
            pending := d.pending ++
              [⟨⟨⟨d.allocated⟩⟩, attempt, request.expectedPeer, deadline, reservation⟩]
            allocated := d.allocated + 1 })

def accept (d : Driver π τ ι γ) (socket : SocketProvider.Socket π) (expectedPeer : ExpectedPeer) :
    Except TransportError Accepted × Driver π τ ι γ :=
  if d.full then (.error .backpressure, d)
  else match d.begin socket ⟨.acceptor, expectedPeer⟩ (Clock.now d.dependencies.clock) with
    | (.error e, d) =>
      (.error (if e.failure.code = .resourceLimit then .backpressure else .startup e.failure), d)
    | (.ok c, d) => (.ok (.connection c.handle), { d with connections := d.connections ++ [c] })

def listen (d : Driver π τ ι γ) (endpoint : SocketAddr) :
    Except TransportError Accepted × Driver π τ ι γ :=
  if d.listeners.length ≥ d.config.limits.connections then (.error .backpressure, d)
  else
    let bound := SocketProvider.listen d.dependencies.sockets endpoint
    let d := { d with dependencies := { d.dependencies with sockets := bound.2 } }
    match bound.1 with
    | .error kind => (.error (.io kind), d)
    | .ok listener =>
      match SocketProvider.localAddr listener with
      | .error kind => (.error (.io kind), d)
      | .ok addr =>
        (.ok (.listener ⟨d.allocated⟩ addr), { d with
          listeners := d.listeners ++ [(⟨d.allocated⟩, listener)]
          allocated := d.allocated + 1 })

def stopListening (d : Driver π τ ι γ) (listener : ListenerHandle) :
    Except TransportError Accepted × Driver π τ ι γ :=
  match removeFirst (fun entry => entry.1 == listener) d.listeners with
  | none => (.error .closed, d)
  | some (entry, listeners) =>
    let failure : Option Failure := match SocketProvider.close entry.2 with
      | .error _ => some ⟨.local_, .connectionLost⟩
      | .ok () => none
    (.ok .queued, { d.push (.listenerClosed listener failure) with listeners })

/-- A call on the session of the connection that matches. -/
def onSession {α : Type} (d : Driver π τ ι γ)
    (p : Connection (SocketProvider.Socket π) γ → Bool)
    (call : Session → Except SessionError α × Session) (accepted : α → Accepted) :
    Except TransportError Accepted × Driver π τ ι γ :=
  let act (c : Connection (SocketProvider.Socket π) γ) :=
    let out := { c with resources := d.resources }.withSession call
    ((out.1, out.2.resources), out.2)
  match updateFirst p act d.connections with
  | none => (.error .wrongConnection, d)
  | some ((answer, resources), connections) =>
    let result := match answer with
      | none => .error .invalidRequest
      | some (.error e) => .error (sessionError e)
      | some (.ok a) => .ok (accepted a)
    (result, { d with resources, connections })

def close (d : Driver π τ ι γ) (connection : ConnectionHandle) :
    Except TransportError Accepted × Driver π τ ι γ :=
  match removeFirst (fun entry => entry.handle == connection) d.pending with
  | some (entry, pending) =>
    (.ok .queued, { d.push (.connectionClosed connection.id (some ⟨.local_, .connectionLost⟩)) with
      pending
      resources := d.resources.releaseConnection (some entry.reservation) })
  | none =>
    let act (c : Connection (SocketProvider.Socket π) γ) :=
      let c := { c with resources := d.resources }.close
      (c.resources, c)
    match updateFirst (fun c => c.handle == connection) act d.connections with
    | none => (.error .wrongConnection, d)
    | some (resources, connections) => (.ok .queued, { d with resources, connections })

/-- What a consumer does to its stream. -/
def StreamAction.call (owner : StreamOwner) (stream : StreamHandle) :
    StreamAction → Session → Except SessionError Unit × Session
  | .data bytes => fun s => s.send owner stream bytes
  | .end_ => fun s => s.end_ owner stream
  | .cancel reason => fun s => s.cancel owner stream reason

def request (d : Driver π τ ι γ) :
    Request (SocketProvider.Socket π) → Except TransportError Accepted × Driver π τ ι γ
  | .registerProtocol protocol => d.register protocol
  | .connect request => d.connect request
  | .accept socket expectedPeer => d.accept socket expectedPeer
  | .listen endpoint => d.listen endpoint
  | .stopListening listener => d.stopListening listener
  | .openStream connection owner =>
    d.onSession (fun c => c.handle == connection) (fun s => s.open_ d.registry owner) .stream
  | .stream owner stream action =>
    d.onSession (fun c => c.handle.id == stream.connection)
      (StreamAction.call owner stream action) fun _ => .queued
  | .ping connection token timeout =>
    d.onSession (fun c => c.handle == connection)
      (fun s => s.ping token timeout (Clock.now d.dependencies.clock)) fun _ => .queued
  | .drain connection reason =>
    d.onSession (fun c => c.handle == connection) (fun s => s.drain reason) fun _ => .queued
  | .close connection => d.close connection

def submit (d : Driver π τ ι γ) (request : Request (SocketProvider.Socket π)) :
    Except TransportError Accepted × Driver π τ ι γ :=
  if d.events.length ≥ saturatingAdd (saturatingMul d.config.limits.connections 4) 16 then
    (.error .backpressure, d)
  else d.request request

end Driver

end TalkSphere
