import TalkSphere.ServerConfig
import TalkSphere.DriverLifecycle

/-! The runtime of a server over its driver: the listener and the configured contacts at
the start, a loop that reads events and routes those of streams to their consumers, and a
shutdown that drains until a deadline. Task notification is left out here: a round of the
loop may come at any time. -/

namespace TalkSphere.Server

inductive Stage
  | configured
  | starting
  | ready
  | stopping
  | stopped
  deriving DecidableEq, Repr

structure Ready where
  localId : IdentityId
  address : SocketAddr
  deriving DecidableEq, Repr

/-- Both are the standard type, of which the driver sees octets and a port. -/
def socketAddr (endpoint : Contacts.SocketAddr) : SocketAddr where
  ip := match endpoint.ip with
    | .v4 octets => octets.toList
    | .v6 segments => segments.toList.flatMap fun (s : UInt16) => [(s >>> 8).toUInt8, s.toUInt8]
  port := endpoint.port

structure Attempt where
  expectedId : IdentityId
  admitted : Except Failure ConnectionHandle

structure Node (π τ ι γ : Type) [SocketProvider π] [Cryptography γ] where
  driver : Driver π τ ι γ
  config : Config
  localId : IdentityId
  contacts : List Contacts.Contact
  stage : Stage := .starting
  connections : List ConnectionHandle := []
  contactsStarted : Bool := false
  shutdownDeadline : Option Instant := none
  listener : Option ListenerHandle := none

/-- Requests that a stopping server refuses. -/
def admission {σ : Type} : Request σ → Bool
  | .connect _ | .listen _ | .openStream _ _ | .accept _ _ => true
  | _ => false

/-- What has been read from the command line or the protected store. -/
structure Credentials (ι : Type) where
  identity : ι
  localId : IdentityId
  contacts : List Contacts.Contact

section

variable {π τ ι γ : Type} [SocketProvider π] [Clock τ] [Identity ι] [Cryptography γ]

def compose (sockets : π) (clock : τ) (crypto : γ) (config : Config)
    (credentials : Credentials ι) : Node π τ ι γ where
  driver := Driver.new config.options.transport ⟨sockets, clock, credentials.identity, crypto⟩
  config
  localId := credentials.localId
  contacts := credentials.contacts

namespace Node

def listen (n : Node π τ ι γ) : Except Failure Ready × Node π τ ι γ :=
  if n.stage ≠ .starting ∨ n.listener.isSome then (.error .runtime, n)
  else match n.driver.submit (.listen n.config.options.listen) with
    | (.error _, driver) => (.error .network, { n with driver })
    | (.ok (.listener handle localAddr), driver) =>
      (.ok ⟨n.localId, localAddr⟩, { n with driver, listener := some handle, stage := .ready })
    | (.ok _, driver) => (.error .runtime, { n with driver })

def keep (n : Node π τ ι γ) (handle : ConnectionHandle) : Node π τ ι γ :=
  if handle ∈ n.connections then n else { n with connections := n.connections ++ [handle] }

def submit (n : Node π τ ι γ) (request : Request (SocketProvider.Socket π)) :
    Except TransportError Accepted × Node π τ ι γ :=
  if n.stage = .stopping ∧ admission request = true then (.error .closed, n)
  else match n.driver.submit request with
    | (.error e, driver) => (.error e, { n with driver })
    | (.ok (.connection handle), driver) =>
      (.ok (.connection handle), { n with driver }.keep handle)
    | (.ok accepted, driver) => (.ok accepted, { n with driver })

def observe (n : Node π τ ι γ) : Event → Except Failure Unit × Node π τ ι γ
  | .incomingConnection handle =>
    if n.stage = .stopping then
      (.ok (), { n with driver := (n.driver.submit (.close handle)).2 })
    else (.ok (), n.keep handle)
  | .connectionClosed connection _ =>
    (.ok (), { n with connections := n.connections.filter fun handle => handle.id != connection })
  | .listenerClosed _ _ => if n.stage = .ready then (.error .network, n) else (.ok (), n)
  | _ => (.ok (), n)

/-- One contact; what the driver does not admit is a network failure. -/
def attempt (n : Node π τ ι γ) (contact : Contacts.Contact) : Attempt × Node π τ ι γ :=
  match contact.endpoint with
  | none => (⟨contact.expectedId, .error .network⟩, n)
  | some endpoint =>
    match ConnectRequest.new (socketAddr endpoint) (.known contact.expectedId) with
    | .error _ => (⟨contact.expectedId, .error .network⟩, n)
    | .ok request =>
      match n.submit (.connect request) with
      | (.ok (.connection handle), n) => (⟨contact.expectedId, .ok handle⟩, n)
      | (_, n) => (⟨contact.expectedId, .error .network⟩, n)

def attempts (n : Node π τ ι γ) : List Contacts.Contact → List Attempt × Node π τ ι γ
  | [] => ([], n)
  | contact :: rest =>
    let first := n.attempt contact
    let others := first.2.attempts rest
    (first.1 :: others.1, others.2)

def connectContacts (n : Node π τ ι γ) : Except Failure (List Attempt) × Node π τ ι γ :=
  if n.stage ≠ .ready ∨ n.contactsStarted then (.error .runtime, n)
  else
    let out := { n with contactsStarted := true }.attempts n.contacts
    (.ok out.1, out.2)

/-- A connection without a session cannot drain and is closed. -/
def drainOrClose (driver : Driver π τ ι γ) (connection : ConnectionHandle) : Driver π τ ι γ :=
  match driver.submit (.drain connection .normal) with
  | (.ok _, driver) => driver
  | (.error _, driver) => (driver.submit (.close connection)).2

/-- The driver once the listener, if there is one, was told to stop. -/
def unlisten (n : Node π τ ι γ) : Driver π τ ι γ :=
  match n.listener with
  | none => n.driver
  | some listener => (n.driver.submit (.stopListening listener)).2

/-- Answers to the requests made here are not looked at. -/
def beginShutdown (n : Node π τ ι γ) (now : Instant) : Except Failure Unit × Node π τ ι γ :=
  if n.stage = .stopping then (.ok (), n)
  else if n.stage ≠ .ready then (.error .runtime, n)
  else match now.checkedAdd n.config.options.shutdownTimeout with
    | none => (.error .runtime, n)
    | some deadline =>
      (.ok (), { n with
        shutdownDeadline := some deadline
        stage := .stopping
        listener := none
        driver := n.connections.foldl drainOrClose n.unlisten })

def shutdownProgress (n : Node π τ ι γ) (now : Instant) (force : Bool) :
    Except Failure Bool × Node π τ ι γ :=
  match n.shutdownDeadline with
  | none => (.error .runtime, n)
  | some deadline =>
    if n.connections.isEmpty then (.ok true, n)
    else if force ∨ deadline ≤ now then
      (.error .shutdownTimeout, { n with
        driver := n.connections.foldl (fun d handle => (d.submit (.close handle)).2) n.driver })
    else (.ok false, n)

end Node

/-- A local consumer of the events of its streams. -/
class Consumer (κ : Type) where
  event : κ → Event → Except Failure Unit × κ

structure Router (κ : Type) where
  consumers : List (StreamOwner × κ) := []

namespace Router

variable {κ : Type} [Consumer κ]

def register (r : Router κ) (driver : Driver π τ ι γ) (protocol : Protocol) (consumer : κ) :
    Except Failure StreamOwner × Router κ × Driver π τ ι γ :=
  if r.consumers.length ≥ 256 then (.error .runtime, r, driver)
  else match driver.submit (.registerProtocol protocol) with
    | (.ok (.registration owner), driver) =>
      (.ok owner, ⟨r.consumers ++ [(owner, consumer)]⟩, driver)
    | (_, driver) => (.error .runtime, r, driver)

/-- The consumer that may see a stream. -/
def serves (stream : StreamHandle) (entry : StreamOwner × κ) : Bool :=
  (stream.authorize stream.connection entry.1).isOk

def offer (e : Event) (entry : StreamOwner × κ) :
    (StreamOwner × Except Failure Unit) × StreamOwner × κ :=
  let answer := Consumer.event entry.2 e
  ((entry.1, answer.1), entry.1, answer.2)

/-- Events of streams go to their owner; the others are handed back. -/
def route (r : Router κ) (driver : Driver π τ ι γ) (e : Event) :
    Except Failure (Option Event) × Router κ × Driver π τ ι γ :=
  match e.stream? with
  | none => (.ok (some e), r, driver)
  | some stream =>
    match updateFirst (serves stream) (offer e) r.consumers with
    | none => (.error .runtime, r, driver)
    | some ((_, .ok ()), consumers) => (.ok none, ⟨consumers⟩, driver)
    | some ((owner, .error _), consumers) =>
      (.ok none, ⟨consumers⟩,
        (driver.submit (.stream owner stream (.cancel .internalError))).2)

end Router

inductive Status
  | ready (ready : Ready)
  | authenticated (context : PeerContext)
  | contactFailed
  | connectionClosed
  | stopped
  deriving DecidableEq, Repr

/-- What is reported of an event. -/
def Status.of : Event → List Status
  | .authenticated context => [.authenticated context]
  | .connectionClosed _ _ => [.connectionClosed]
  | _ => []

/-- A node with its router, and what has been seen so far: the events that the driver
handed over, how many of them before the shutdown began, and the statuses reported. -/
structure Runtime (π τ ι γ κ : Type) [SocketProvider π] [Cryptography γ] where
  node : Node π τ ι γ
  router : Router κ
  delivered : List Event := []
  mark : Option Nat := none
  reports : List Status := []

/-- What one round of the loop finds: how the surroundings of the driver changed before
each of its polls, whether shutdown was requested and repeated, and two readings of the
clock. -/
structure Reading (π τ ι γ : Type) [SocketProvider π] where
  stopping : Bool
  forcing : Bool
  began : Instant
  now : Instant
  changes : List (Driver.Change π τ ι γ)

def eventsPerTurn : Nat := 64

namespace Runtime

variable {κ : Type} [Consumer κ]

def setDriver (s : Runtime π τ ι γ κ) (driver : Driver π τ ι γ) : Runtime π τ ι γ κ :=
  { s with node := { s.node with driver } }

def change (s : Runtime π τ ι γ κ) : Option (Driver.Change π τ ι γ) → Runtime π τ ι γ κ
  | none => s
  | some w => s.setDriver (s.node.driver.change w)

def consume (s : Runtime π τ ι γ κ) (e : Event) : Except Failure Unit × Runtime π τ ι γ κ :=
  match s.node.observe e with
  | (.error failure, node) => (.error failure, { s with node })
  | (.ok (), node) =>
    let s := { s with node, reports := s.reports ++ Status.of e }
    match s.router.route s.node.driver e with
    | (.error failure, router, driver) => (.error failure, { s.setDriver driver with router })
    | (.ok _, router, driver) => (.ok (), { s.setDriver driver with router })

def poll (s : Runtime π τ ι γ κ) : Poll (Option Event) × Runtime π τ ι γ κ :=
  let out := s.node.driver.pollEvent
  (out.1, { s.setDriver out.2 with delivered := s.delivered ++ out.1.event.toList })

/-- At most so many events; the answer is their number. -/
def turnWith : Nat → List (Driver.Change π τ ι γ) → Runtime π τ ι γ κ →
    Except Failure Nat × Runtime π τ ι γ κ
  | 0, _, s => (.ok 0, s)
  | left + 1, changes, s =>
    match (s.change changes.head?).poll with
    | (.pending, s) => (.ok 0, s)
    | (.ready none, s) => (.error .runtime, s)
    | (.ready (some e), s) =>
      match s.consume e with
      | (.error failure, s) => (.error failure, s)
      | (.ok (), s) =>
        match turnWith left changes.tail s with
        | (.error failure, s) => (.error failure, s)
        | (.ok count, s) => (.ok (count + 1), s)

/-- The shutdown of a server that is ready, once it was requested. -/
def stop (s : Runtime π τ ι γ κ) (r : Reading π τ ι γ) : Except Failure Unit × Runtime π τ ι γ κ :=
  if r.stopping ∧ s.node.stage = .ready then
    match s.node.beginShutdown r.began with
    | (.error failure, node) => (.error failure, { s with node })
    | (.ok (), node) => (.ok (), { s with node, mark := some s.delivered.length })
  else (.ok (), s)

/-- Whether a stopping server is done. -/
def progress (s : Runtime π τ ι γ κ) (r : Reading π τ ι γ) :
    Except Failure Bool × Runtime π τ ι γ κ :=
  if s.node.stage = .stopping then
    let out := s.node.shutdownProgress r.now r.forcing
    (out.1, { s with node := out.2 })
  else (.ok false, s)

/-- A turn of the driver, after which a stopping server may be done. -/
def proceed (s : Runtime π τ ι γ κ) (r : Reading π τ ι γ) :
    Except Failure Bool × Runtime π τ ι γ κ :=
  match turnWith eventsPerTurn r.changes s with
  | (.error failure, s) => (.error failure, s)
  | (.ok _, s) => s.progress r

/-- One round; the answer tells whether it was the last. -/
def round (s : Runtime π τ ι γ κ) (r : Reading π τ ι γ) :
    Except Failure Bool × Runtime π τ ι γ κ :=
  match s.stop r with
  | (.error failure, s) => (.error failure, s)
  | (.ok (), s) => s.proceed r

/-- There is no answer while the loop goes on. -/
def loop (s : Runtime π τ ι γ κ) : List (Reading π τ ι γ) →
    Option (Except Failure Unit) × Runtime π τ ι γ κ
  | [] => (none, s)
  | r :: rest =>
    match s.round r with
    | (.error failure, s) => (some (.error failure), s)
    | (.ok true, s) => (some (.ok ()), s)
    | (.ok false, s) => s.loop rest

end Runtime

variable {κ : Type} [Consumer κ]

/-- Up to the loop: the listener is bound and the contacts have been tried. -/
def start (node : Node π τ ι γ) (router : Router κ) :
    Except Failure Unit × Runtime π τ ι γ κ :=
  match node.listen with
  | (.error failure, node) => (.error failure, { node, router })
  | (.ok ready, node) =>
    match node.connectContacts with
    | (.error failure, node) => (.error failure, { node, router, reports := [.ready ready] })
    | (.ok attempts, node) =>
      (.ok (), { node, router, reports := .ready ready ::
        (attempts.filter fun a => !a.admitted.isOk).map fun _ => .contactFailed })

/-- `stopping` tells whether shutdown was requested before the start. -/
def run (node : Node π τ ι γ) (router : Router κ) (stopping : Bool)
    (readings : List (Reading π τ ι γ)) : Option (Except Failure Unit) × Runtime π τ ι γ κ :=
  if stopping then (some (.ok ()), { node, router, reports := [.stopped] })
  else match start node router with
    | (.error failure, s) => (some (.error failure), s)
    | (.ok (), s) =>
      match s.loop readings with
      | (some (.ok ()), s) => (some (.ok ()), { s with reports := s.reports ++ [.stopped] })
      | out => out

end

end TalkSphere.Server
