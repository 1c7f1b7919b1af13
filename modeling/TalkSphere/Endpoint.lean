import Mathlib.Logic.Function.Basic
import Mathlib.Logic.Relation
import TalkSphere.SessionCalls

/-! What one session does to its peer, without budgets, timers and encodings: a
queue of messages, the table of active streams and the history of the run. The
steps are a relation, since admission control may refuse any of them. -/

namespace TalkSphere

open Relation (ReflTransGen)

/-- A frame as its receiver reads it. `stop` is CANCEL or a stream ERROR with the
outcome the receiver reports, `fatal` the connection ERROR. -/
inductive Message
  | open_ (id : UInt32)
  | data (id : UInt32) (bytes : List UInt8)
  | end_ (id : UInt32)
  | stop (id : UInt32) (outcome : StreamOutcome)
  | probe
  | goAway (last : UInt32) (code : ErrorCode)
  | fatal (code : ErrorCode)
  | malformed (id : UInt32)
  deriving DecidableEq

namespace Message

def id : Message → UInt32
  | .open_ id => id
  | .data id _ => id
  | .end_ id => id
  | .stop id _ => id
  | .malformed id => id
  | _ => 0

def isOpen : Message → Bool
  | .open_ _ => true
  | _ => false

def isGoAway : Message → Bool
  | .goAway _ _ => true
  | _ => false

def openId : Message → Option UInt32
  | .open_ id => some id
  | _ => none

def bytes : Message → List UInt8
  | .data _ bytes => bytes
  | _ => []

/-- The place of a message in the life of its stream. -/
def stage : Message → Nat
  | .open_ _ => 0
  | .data _ _ => 1
  | .end_ _ => 2
  | .stop _ _ => 3
  | _ => 4

end Message

def WireFrame.message (f : WireFrame) : Message :=
  let id := f.header.streamId
  match f.header.frameType with
  | .open_ => .open_ id
  | .data => if f.payload = [] then .malformed id else .data id f.payload
  | .end_ => if f.payload = [] then .end_ id else .malformed id
  | .cancel =>
    match ErrorPayload.decode f.payload with
    | .ok d => .stop id (Session.peerOutcome .cancel d.code)
    | .error _ => .malformed id
  | .error =>
    match ErrorPayload.decode f.payload with
    | .ok d => if id = 0 then .fatal d.code else .stop id (Session.peerOutcome .error d.code)
    | .error _ => .malformed id
  | .goAway =>
    match GoAway.decode f.payload with
    | .ok g => .goAway g.lastAcceptedRemoteStreamId g.code
    | .error _ => .malformed id
  | .ping | .pong => if f.payload.length = 8 then .probe else .malformed id
  | .hello | .auth => .malformed id

structure Endpoint where
  ids : StreamIds
  streams : UInt32 → Option StreamState
  queue : List Message
  acceptedRemote : UInt32
  goawaySent : Bool
  peerGoaway : Option UInt32
  closed : Bool
  log : List Event
  sends : List (UInt32 × List UInt8)
  reports : List UInt32

/-- Events of one stream, in order. -/
def onStream (id : UInt32) (e : Event) : Bool :=
  e.stream?.any (·.wireId == id)

def trace (id : UInt32) (log : List Event) : List Event := log.filter (onStream id)

theorem trace_append (id : UInt32) (l l' : List Event) :
    trace id (l ++ l') = trace id l ++ trace id l' :=
  List.filter_append ..

theorem trace_eq_nil {id : UInt32} {l : List Event} (hl : ∀ e ∈ l, e.stream? = none) :
    trace id l = [] := by
  simp only [trace, List.filter_eq_nil_iff]
  intro e he
  simp [onStream, hl e he]

theorem trace_single (id : UInt32) {e : Event} {stream : StreamHandle}
    (he : e.stream? = some stream) : trace id [e] = if stream.wireId = id then [e] else [] := by
  simp [trace, List.filter_cons, onStream, he]

/-- Neither a refusal nor a state violation, the two outcomes an honest endpoint
reports only for the reasons the protocol gives. -/
def StreamOutcome.Plain : StreamOutcome → Prop
  | .failed f => f.code ≠ .refused ∧ f.code ≠ .streamState
  | _ => True

def ErrorCode.Plain (c : ErrorCode) : Prop := c ≠ .refusedStream ∧ c ≠ .streamStateError

namespace Endpoint

/-- Queued messages that survive the end of a stream. -/
def purge (id : UInt32) (queue : List Message) : List Message :=
  queue.filter fun m => m.id != id || m.isOpen

/-- Ending a stream locally, with or without a message to the peer. -/
def drop (e : Endpoint) (id : UInt32) (state : StreamState) (outcome : StreamOutcome) : Endpoint :=
  { e with
    streams := Function.update e.streams id none
    queue := purge id e.queue
    log := e.log ++ [.streamClosed state.handle outcome] }

def push (e : Endpoint) (m : Message) : Endpoint := { e with queue := e.queue ++ [m] }

def enroll (e : Endpoint) (id : UInt32) (ids : StreamIds) (context : PeerContext)
    (stream : StreamHandle) (protocol : Protocol) : Endpoint :=
  { e with
    ids
    streams := Function.update e.streams id (some ⟨stream, true, true, false⟩)
    log := e.log ++ [.streamOpened context stream protocol] }

/-- Closing appends `events`: results of pings, one failure for each active
stream, and the closure. -/
def shut (e : Endpoint) (events : List Event) (response : Option ErrorCode) : Endpoint :=
  { e with
    closed := true
    streams := fun _ => none
    queue := response.toList.map .fatal
    log := e.log ++ events }

/-- The events of a closure with `failure` as the outcome of unfinished work. -/
structure Closing (e : Endpoint) (failure : Failure) (events : List Event) : Prop where
  onStreams : ∀ id, trace id events =
    ((e.streams id).map fun state => .streamClosed state.handle (.failed failure)).toList
  others : ∀ ev ∈ events, ev.stream? = none →
    (∃ c t r, ev = .pingFinished c t r) ∨ ∃ c f, ev = .connectionClosed c f

inductive Local : Endpoint → Endpoint → Prop
  | note {e : Endpoint} (events : List Event) (hopen : e.closed = false)
      (hping : ∀ ev ∈ events, ∃ c t r, ev = .pingFinished c t r) :
      Local e { e with log := e.log ++ events }
  | probe {e : Endpoint} (hopen : e.closed = false) : Local e (e.push .probe)
  | open_ {e : Endpoint} {id : UInt32} {ids : StreamIds} (context : PeerContext)
      (stream : StreamHandle) (protocol : Protocol) (hopen : e.closed = false)
      (hsent : e.goawaySent = false) (hpeer : e.peerGoaway = none)
      (hid : e.ids.allocate = (.ok id, ids)) (hs : stream.wireId = id) :
      Local e ((e.enroll id ids context stream protocol).push (.open_ id))
  | send {e : Endpoint} {id : UInt32} {state : StreamState} {bytes : List UInt8}
      (hopen : e.closed = false) (hstream : e.streams id = some state)
      (hl : state.localOpen = true) (hb : bytes ≠ []) :
      Local e { e.push (.data id bytes) with sends := e.sends ++ [(id, bytes)] }
  | end_ {e : Endpoint} {id : UInt32} {state : StreamState} (hopen : e.closed = false)
      (hstream : e.streams id = some state) (hl : state.localOpen = true) :
      Local e { e.push (.end_ id) with
        streams := Function.update e.streams id (some { state with localOpen := false }) }
  | reported {e : Endpoint} (id : UInt32) :
      Local e { e with
        streams := Function.update e.streams id
          ((e.streams id).map fun state => { state with localEndWritten := !state.localOpen })
        reports := e.reports ++ [id] }
  | completed {e : Endpoint} {id : UInt32} {state : StreamState} (hopen : e.closed = false)
      (hstream : e.streams id = some state) (hr : state.remoteOpen = false)
      (hw : state.localEndWritten = true) :
      Local e { e with
        streams := Function.update e.streams id none
        log := e.log ++ [.streamClosed state.handle .completed] }
  | stop {e : Endpoint} {id : UInt32} {state : StreamState} {outcome : StreamOutcome}
      (reply : Option StreamOutcome) (hopen : e.closed = false)
      (hstream : e.streams id = some state) (ho : outcome.Plain) (hc : outcome ≠ .completed)
      (hr : ∀ o ∈ reply, o.Plain) :
      Local e { e.drop id state outcome with
        queue := purge id e.queue ++ reply.toList.map (.stop id) }
  | drain {e : Endpoint} (code : ErrorCode) (hopen : e.closed = false)
      (hsent : e.goawaySent = false) :
      Local e { e.push (.goAway e.acceptedRemote code) with goawaySent := true }
  | close {e : Endpoint} {failure : Failure} {events : List Event} (response : Option ErrorCode)
      (hopen : e.closed = false) (hc : Closing e failure events)
      (hf : (StreamOutcome.failed failure).Plain) (hr : ∀ code ∈ response, code.Plain) :
      Local e (e.shut events response)

/-- Reading one message the state allows. -/
inductive Consume : Message → Endpoint → Endpoint → Prop
  | admitted {e : Endpoint} {id : UInt32} {ids : StreamIds} (context : PeerContext)
      (stream : StreamHandle) (protocol : Protocol) (hopen : e.closed = false)
      (hsent : e.goawaySent = false) (hpeer : e.peerGoaway = none)
      (hid : e.ids.accept id = (.ok (), ids)) (hs : stream.wireId = id) :
      Consume (.open_ id) e { e.enroll id ids context stream protocol with acceptedRemote := id }
  | refused {e : Endpoint} {id : UInt32} {ids : StreamIds} (reply : Option StreamOutcome)
      (hopen : e.closed = false) (hid : e.ids.accept id = (.ok (), ids))
      (hr : ∀ o ∈ reply, o.Plain ∨
        (o = .failed ⟨.peer, .refused⟩ ∧ (e.goawaySent = true ∨ e.peerGoaway.isSome))) :
      Consume (.open_ id) e { e with ids, queue := e.queue ++ reply.toList.map (.stop id) }
  | data {e : Endpoint} {id : UInt32} {state : StreamState} {bytes : List UInt8}
      (hopen : e.closed = false) (hstream : e.streams id = some state)
      (hr : state.remoteOpen = true) :
      Consume (.data id bytes) e { e with log := e.log ++ [.data state.handle bytes] }
  | overflow {e : Endpoint} {id : UInt32} {state : StreamState} {bytes : List UInt8}
      {outcome : StreamOutcome} (reply : Option StreamOutcome) (hopen : e.closed = false)
      (hstream : e.streams id = some state) (ho : outcome.Plain) (hc : outcome ≠ .completed)
      (hr : ∀ o ∈ reply, o.Plain) :
      Consume (.data id bytes) e { e.drop id state outcome with
        queue := purge id e.queue ++ reply.toList.map (.stop id) }
  | end_ {e : Endpoint} {id : UInt32} {state : StreamState} (hopen : e.closed = false)
      (hstream : e.streams id = some state) (hr : state.remoteOpen = true) :
      Consume (.end_ id) e { e with
        streams := Function.update e.streams id (some { state with remoteOpen := false })
        log := e.log ++ [.remoteEnd state.handle] }
  | stop {e : Endpoint} {id : UInt32} {state : StreamState} {outcome : StreamOutcome}
      (hopen : e.closed = false) (hstream : e.streams id = some state)
      (hc : outcome ≠ .completed) :
      Consume (.stop id outcome) e (e.drop id state outcome)
  | ignored {e : Endpoint} {m : Message} (hopen : e.closed = false) (hz : m.id ≠ 0)
      (hm : m.isOpen = false) (hid : e.ids.wasCreated m.id = true)
      (hstream : e.streams m.id = none) : Consume m e e
  | goAway {e : Endpoint} {last : UInt32} {code : ErrorCode} {events : List Event}
      (hopen : e.closed = false)
      (hlog : ∀ id, trace id events = if e.ids.isLocal id ∧ last < id then
        ((e.streams id).map fun state => .streamClosed state.handle (.failed ⟨.peer, .refused⟩)).toList
        else [])
      (hevents : ∀ ev ∈ events, ev.stream?.isSome) :
      Consume (.goAway last code) e { e with
        peerGoaway := some last
        streams := fun id => if e.ids.isLocal id ∧ last < id then none else e.streams id
        queue := e.queue.filter fun m =>
          !((e.streams m.id).isSome && e.ids.isLocal m.id && last < m.id) || m.isOpen
        log := e.log ++ events }
  | probe {e : Endpoint} (hopen : e.closed = false) : Consume .probe e e
  | fatal {e : Endpoint} {code : ErrorCode} {events : List Event} (hopen : e.closed = false)
      (hc : Closing e ⟨.peer, failureCode code⟩ events) :
      Consume (.fatal code) e (e.shut events none)

/-- Messages the receiver answers with a protocol error or a state failure. -/
def Illegal (e : Endpoint) : Message → Prop
  | .open_ id => e.ids.nextRemote ≠ some id
  | .data id _ => e.ids.wasCreated id = false ∨ ∃ state, e.streams id = some state ∧ state.remoteOpen = false
  | .end_ id => e.ids.wasCreated id = false ∨ ∃ state, e.streams id = some state ∧ state.remoteOpen = false
  | .stop id _ => e.ids.wasCreated id = false
  | .goAway last _ => (last ≠ 0 ∧ e.ids.isLocal last = false) ∨ e.ids.greatestLocal < last ∨
      ∃ previous, e.peerGoaway = some previous ∧ previous < last
  | .probe => False
  | .fatal _ => False
  | .malformed _ => True

/-- What a session may do beyond the protocol: fail a stream for a violation of
the peer, close with any failure, or consume an id and refuse it. -/
inductive Forced : Endpoint → Endpoint → Prop
  | fail {e : Endpoint} {id : UInt32} {state : StreamState} {outcome : StreamOutcome}
      (reply : Option StreamOutcome) (hopen : e.closed = false)
      (hstream : e.streams id = some state) (hc : outcome ≠ .completed) :
      Forced e { e.drop id state outcome with
        queue := purge id e.queue ++ reply.toList.map (.stop id) }
  | close {e : Endpoint} {failure : Failure} {events : List Event} (response : Option ErrorCode)
      (hopen : e.closed = false) (hc : Closing e failure events) :
      Forced e (e.shut events response)

/-- Any step of a session facing an arbitrary peer. -/
inductive Free : Endpoint → Endpoint → Prop
  | own {e e' : Endpoint} (h : Local e e') : Free e e'
  | read {m : Message} {e e' : Endpoint} (h : Consume m e e') : Free e e'
  | forced {e e' : Endpoint} (h : Forced e e') : Free e e'
  | popped {e : Endpoint} (queue : List Message) : Free e { e with queue }

end Endpoint

end TalkSphere
