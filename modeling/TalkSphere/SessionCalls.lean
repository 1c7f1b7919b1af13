import TalkSphere.Session

/-! The operations of a session: local calls, the output scheduler, timers and
the dispatch of verified frames. -/

namespace TalkSphere

namespace Session

def shutdownCode : ShutdownReason → ErrorCode
  | .normal => .noError
  | .idExhausted => .idExhausted
  | .resourceLimit => .resourceLimit
  | .internalError => .internalError

def drain (s : Session) (reason : ShutdownReason) : Except SessionError Unit × Session :=
  if s.closed then (.error .closed, s)
  else if s.goawaySent then (.ok (), s)
  else match GoAway.new s.acceptedRemote (shutdownCode reason) "" with
    | .error _ => (.error .protocol, s)
    | .ok payload =>
      match frame .goAway 0 payload.encode with
      | .error e => (.error e, s)
      | .ok output =>
        match s.queue output with
        | (.error e, s) => (.error e, s)
        | (.ok _, s) => (.ok (), { s with goawaySent := true })

/-- The OPEN bytes are reserved before an id is consumed; on exhaustion the
reservation is dropped after the drain it triggers. -/
def open_ (s : Session) (registry : Registry) (owner : StreamOwner) :
    Except SessionError StreamHandle × Session :=
  if s.closed then (.error .closed, s)
  else if s.goawaySent || s.peerGoaway.isSome then (.error .draining, s)
  else match registry.protocol owner with
    | none => (.error .owner, s)
    | some protocol =>
      match Open.new protocol.id protocol.version with
      | .error _ => (.error .protocol, s)
      | .ok selection =>
        let payload := selection.encode
        if s.events.length ≥ s.eventLimit ∨
            s.streams.size ≥ s.resources.limits.streamsPerConnection then (.error .capacity, s)
        else match s.resources.outbound (payload.length + queuedOverhead) with
          | none => (.error .capacity, s)
          | some (lease, resources) =>
            let s := { s with resources }
            match s.ids.allocate with
            | (.error e, _) =>
              match s.drain .idExhausted with
              | (.error d, s) =>
                (.error d, { s with resources := s.resources.releaseOutbound (some lease) })
              | (.ok _, s) =>
                (.error (.id e), { s with resources := s.resources.releaseOutbound (some lease) })
            | (.ok id, ids) =>
              match ({ s with ids }).add id owner protocol with
              | (.error e, s) =>
                (.error e, { s with resources := s.resources.releaseOutbound (some lease) })
              | (.ok stream, s) =>
                match frame .open_ id payload with
                | .error e =>
                  (.error e, { s with resources := s.resources.releaseOutbound (some lease) })
                | .ok output =>
                  (.ok stream, { s with
                    outbound := s.outbound ++ [{ output with reservation := some lease }] })

def send (s : Session) (owner : StreamOwner) (stream : StreamHandle) (bytes : List UInt8) :
    Except SessionError Unit × Session :=
  if s.closed then (.error .closed, s)
  else match stream.authorize s.handle.id owner with
    | .error e => (.error (.authority e), s)
    | .ok _ =>
      if !(s.streams[stream.wireId]?.any (·.localOpen)) then (.error .protocol, s)
      else if bytes = [] ∨ bytes.length > maxPayloadBytes then (.error .invalidData, s)
      else match frame .data stream.wireId bytes with
        | .error e => (.error e, s)
        | .ok output => s.queue output

def end_ (s : Session) (owner : StreamOwner) (stream : StreamHandle) :
    Except SessionError Unit × Session :=
  if s.closed then (.error .closed, s)
  else match stream.authorize s.handle.id owner with
    | .error e => (.error (.authority e), s)
    | .ok _ =>
      match s.streams[stream.wireId]? with
      | none => (.error .protocol, s)
      | some state =>
        if !state.localOpen then (.error .protocol, s)
        else match frame .end_ stream.wireId [] with
          | .error e => (.error e, s)
          | .ok output =>
            match s.resources.outbound queuedOverhead with
            | none => (.error .capacity, s)
            | some (lease, resources) =>
              (.ok (), { s with
                resources
                streams := s.streams.insert stream.wireId { state with localOpen := false }
                outbound := s.outbound ++ [{ output with reservation := some lease }] })

def cancellationCode : CancellationReason → ErrorCode
  | .cancelled => .cancelled
  | .resourceLimit => .resourceLimit
  | .internalError => .internalError

def cancel (s : Session) (owner : StreamOwner) (stream : StreamHandle)
    (reason : CancellationReason) : Except SessionError Unit × Session :=
  if s.closed then (.error .closed, s)
  else match stream.authorize s.handle.id owner with
    | .error e => (.error (.authority e), s)
    | .ok _ =>
      let id := stream.wireId
      if !s.streams.contains id then (.error .protocol, s)
      else
        let s := s.terminate id (.cancelled .local_ reason)
        match ErrorPayload.new (cancellationCode reason) "" with
        | .error _ => (.error .protocol, s)
        | .ok payload =>
          match frame .cancel id payload.encode with
          | .error e => (.error e, s)
          | .ok output =>
            match s.queue output with
            | (.ok _, s) => (.ok (), s)
            | (.error _, s) => (.ok (), s.close (some ⟨.local_, .resourceLimit⟩) none)

def sent (s : Session) (kind : FrameType) (id : UInt32) : Session :=
  let s := if kind = .goAway then { s with goawayWritten := true } else s
  if kind = .end_ then
    match s.streams[id]? with
    | none => s.complete id
    | some state =>
      let state := { state with localEndWritten := !state.localOpen }
      let s := { s with streams := s.streams.insert id state }
      s.complete id
  else s

def readyToClose (s : Session) : Bool :=
  !s.closed && s.goawayWritten && s.streams.isEmpty && s.outbound.isEmpty

def ping (s : Session) (token : Token) (timeout : Duration) (now : Instant) :
    Except SessionError Unit × Session :=
  if s.closed then (.error .closed, s)
  else if timeout = 0 ∨ s.pings.contains token then (.error .protocol, s)
  else if s.pings.size ≥ 64 then (.error .capacity, s)
  else match Instant.checkedAdd now timeout with
    | none => (.error .protocol, s)
    | some deadline =>
      match frame .ping 0 token.toList with
      | .error e => (.error e, s)
      | .ok output =>
        match s.queue output with
        | (.error e, s) => (.error e, s)
        | (.ok _, s) => (.ok (), { s with pings := s.pings.insert token (now, deadline) })

def tick (s : Session) (now : Instant) : Session :=
  let expired := (s.pings.toList.filter fun e => e.2.2 ≤ now).map Prod.fst
  { s with
    now := some now
    pings := expired.foldl (fun pings token => pings.erase token) s.pings
    events := s.events ++ expired.map fun token =>
      .pingFinished s.handle.id token (.error ⟨.local_, .deadlineExceeded⟩) }

def nextDeadline (s : Session) : Option Instant :=
  (s.pings.toList.map fun e => e.2.2).min?

def receivePing (s : Session) (kind : FrameType) (payload : List UInt8) :
    Except SessionError Unit × Session :=
  match PingToken.decode payload with
  | .error _ => (.error .protocol, s)
  | .ok token =>
    if kind = .ping then
      match frame .pong 0 token.toList with
      | .error e => (.error e, s)
      | .ok output => s.queue output
    else match s.pings[token]? with
      | none => (.ok (), s)
      | some (started, _) =>
        let s := { s with pings := s.pings.erase token }
        match s.now.bind (Instant.checkedDurationSince · started) with
        | none => (.error .protocol, s)
        | some elapsed =>
          (.ok (), { s with
            events := s.events ++ [.pingFinished s.handle.id token (.ok elapsed)] })

/-- Local streams above the bound a peer GOAWAY announces. -/
def refusedBy (s : Session) (last : UInt32) : List UInt32 :=
  s.streams.keys.filter fun id => s.ids.isLocal id && last < id

def receiveGoaway (s : Session) (payload : List UInt8) : Except SessionError Unit × Session :=
  match GoAway.decode payload with
  | .error _ => (.error .protocol, s)
  | .ok goaway =>
    let last := goaway.lastAcceptedRemoteStreamId
    if (last ≠ 0 ∧ !s.ids.isLocal last) ∨ s.ids.greatestLocal < last ∨
        s.peerGoaway.any (· < last) then (.error .protocol, s)
    else
      let s := { s with peerGoaway := some last }
      let s := if goaway.code ≠ .noError then
          { s with drainFailure := some ⟨.peer, failureCode goaway.code⟩ }
        else s
      let s := (s.refusedBy last).foldl
        (fun s id => s.terminate id (.failed ⟨.peer, .refused⟩)) s
      s.drain .normal

/-- How a peer CANCEL or ERROR ends a stream. -/
def peerOutcome (kind : FrameType) (code : ErrorCode) : StreamOutcome :=
  match kind, code with
  | .cancel, .cancelled => .cancelled .peer .cancelled
  | .cancel, .resourceLimit => .cancelled .peer .resourceLimit
  | .cancel, .internalError => .cancelled .peer .internalError
  | _, code => .failed ⟨.peer, failureCode code⟩

/-- Bytes of one stream that wait in the event queue. -/
def buffered (s : Session) (id : UInt32) : Nat :=
  (s.events.map fun
    | .data stream bytes => if stream.wireId = id then bytes.length else 0
    | _ => 0).sum

def receiveEnd (s : Session) (id : UInt32) (payload : List UInt8) :
    Except SessionError Unit × Session :=
  match s.streams[id]? with
  | none => (.error .protocol, s)
  | some state =>
    if payload ≠ [] ∨ !state.remoteOpen then s.failStream id .streamStateError .streamState
    else
      let s := { s with
        streams := s.streams.insert id { state with remoteOpen := false }
        events := s.events ++ [Event.remoteEnd state.handle] }
      (.ok (), s.complete id)

def receiveData (s : Session) (id : UInt32) (payload : List UInt8) :
    Except SessionError Unit × Session :=
  match s.streams[id]? with
  | none => (.error .protocol, s)
  | some state =>
    if !state.remoteOpen then s.failStream id .streamStateError .streamState
    else if payload = [] ∨ payload.length > maxPayloadBytes then
      s.failStream id .streamStateError .streamState
    else if s.buffered id + payload.length > s.resources.limits.bufferedBytesPerStream then
      s.failStream id .resourceLimit .resourceLimit
    else (.ok (), { s with events := s.events ++ [.data state.handle payload] })

def receiveOpen (s : Session) (id : UInt32) (payload : List UInt8) (registry : Registry) :
    Except SessionError Unit × Session :=
  match s.ids.accept id with
  | (.error e, _) => (.error (.id e), s)
  | (.ok _, ids) =>
    let s := { s with ids }
    if s.goawaySent || s.peerGoaway.isSome then s.refuse id .refusedStream
    else if s.streams.size ≥ s.resources.limits.streamsPerConnection then
      s.refuse id .resourceLimit
    else match Open.decode payload with
      | .error _ => s.refuse id .protocolError
      | .ok selection =>
        match registry.resolve selection with
        | none => s.refuse id .unsupportedProtocol
        | some owner =>
          match s.add id owner ⟨selection.id, selection.version⟩ with
          | (.error e, s) => (.error e, s)
          | (.ok _, s) => (.ok (), s)

/-- The branches of the source in their order; END, DATA and OPEN are the three
functions above. -/
def receiveParts (s : Session) (kind : FrameType) (id : UInt32) (payload : List UInt8)
    (registry : Registry) : Except SessionError Unit × Session :=
  if kind = .goAway ∧ id = 0 then s.receiveGoaway payload
  else if (kind = .ping ∨ kind = .pong) ∧ id = 0 then s.receivePing kind payload
  else if kind = .error ∧ id = 0 then
    match ErrorPayload.decode payload with
    | .error _ => (.error .protocol, s)
    | .ok error => (.ok (), s.close (some ⟨.peer, failureCode error.code⟩) none)
  else if kind ≠ .open_ ∧ id ≠ 0 ∧ !s.ids.wasCreated id then (.error .protocol, s)
  else if kind ≠ .open_ ∧ id ≠ 0 ∧ !s.streams.contains id then (.ok (), s)
  else if (kind = .cancel ∨ kind = .error) ∧ id ≠ 0 then
    match ErrorPayload.decode payload with
    | .error _ => (.error .protocol, s)
    | .ok diagnostic => (.ok (), s.terminate id (peerOutcome kind diagnostic.code))
  else if kind = .end_ then s.receiveEnd id payload
  else if kind = .data then s.receiveData id payload
  else if kind ≠ .open_ then (.error .protocol, s)
  else s.receiveOpen id payload registry

def receive (s : Session) (f : VerifiedFrame) (registry : Registry) (now : Instant) :
    Except SessionError Unit × Session :=
  if s.closed then (.error .closed, s)
  else
    let s := s.tick now
    if s.events.length ≥ s.eventLimit then
      (.error .capacity, s.close (some ⟨.local_, .resourceLimit⟩) none)
    else
      match s.receiveParts f.wire.header.frameType f.wire.header.streamId f.wire.payload
        registry with
      | (.ok _, s) => (.ok (), s)
      | (.error .capacity, s) =>
        (.error .capacity, s.close (some ⟨.local_, .resourceLimit⟩) (some .resourceLimit))
      | (.error e, s) =>
        (.error e, s.close (some ⟨.local_, .protocolViolation⟩) (some .protocolError))

def popEvent (s : Session) : Option Event × Session :=
  match s.events with
  | [] => (none, s)
  | e :: rest => (some e, { s with events := rest })

def eligible (firstOpen : Option Nat) : Nat → List UInt32 → List WireFrame → List (UInt32 × Nat)
  | _, _, [] => []
  | index, seen, f :: rest =>
    let id := f.header.streamId
    if id ∈ seen then eligible firstOpen (index + 1) seen rest
    else if f.header.frameType = .open_ ∧ firstOpen ≠ some index then
      eligible firstOpen (index + 1) (id :: seen) rest
    else if f.header.frameType = .goAway ∧ firstOpen.any (· < index) then
      eligible firstOpen (index + 1) (id :: seen) rest
    else (id, index) :: eligible firstOpen (index + 1) (id :: seen) rest

/-- The first entry with the least id. -/
def minById : List (UInt32 × Nat) → Option (UInt32 × Nat)
  | [] => none
  | e :: rest =>
    match minById rest with
    | none => some e
    | some m => if m.1 < e.1 then some m else some e

def nextOutput (s : Session) : Option WireFrame × Session :=
  let firstOpen := s.outbound.findIdx? fun f => f.header.frameType == .open_
  let ready := eligible firstOpen 0 [] s.outbound
  match (minById (ready.filter fun e => s.lastOutput.all (· < e.1))).or (minById ready) with
  | none => (none, s)
  | some (id, index) =>
    (s.outbound[index]?, { s with lastOutput := some id, outbound := s.outbound.eraseIdx index })

def popOutbound (s : Session) : Option WireFrame × Session := s.nextOutput

def popStreamEvent (s : Session) (owner : StreamOwner) : Option Event × Session :=
  match s.events.findIdx? fun e =>
      e.stream?.any fun stream => (stream.authorize s.handle.id owner).isOk with
  | none => (none, s)
  | some index => (s.events[index]?, { s with events := s.events.eraseIdx index })

end Session

end TalkSphere
