import TalkSphere.SessionAnswers

/-! What a session does, in elementary changes. A frame or a call amounts to some of them;
what it leaves alone, says, queues and costs follows change by change. -/

namespace TalkSphere

open Std (TreeMap)

def Call.stream? : Call → Option UInt32
  | .send _ stream _ | .end_ _ stream | .cancel _ stream _ => some stream.wireId
  | .receive f _ _ => some f.wire.header.streamId
  | _ => none

def Call.isRead : Call → Bool
  | .popEvent | .popStreamEvent _ => true
  | _ => false

namespace Session

/-- One change on behalf of stream `id`, or of the connection for id 0. It adds at most `n` to
the events that wait or that need no further input. -/
inductive Work : UInt32 → Nat → Session → Session → Prop
  | tuned {s : Session} (id : UInt32) (peerGoaway : Option UInt32) (drainFailure : Option Failure)
      (acceptedRemote : UInt32) (goawaySent : Bool) :
      Work id 0 s { s with peerGoaway, drainFailure, acceptedRemote, goawaySent }
  | accepted {s : Session} {id : UInt32} {ids : StreamIds}
      (accepted : s.ids.accept id = (.ok (), ids)) : Work id 0 s { s with ids }
  | pushed {s : Session} {f : WireFrame} {lease : Reservation} {resources : Resources}
      (kind : f.header.frameType ≠ .open_)
      (room : s.resources.outbound (f.payload.length + queuedOverhead) = some (lease, resources)) :
      Work f.header.streamId 0 s (s.pushed f lease resources)
  | purged {s : Session} (id : UInt32) :
      Work id 0 s { s with
        outbound := s.outbound.filter (retained id)
        resources := releaseAll s.resources (s.outbound.filter fun f => !retained id f) }
  | dropped {s : Session} {id : UInt32} {state : StreamState} (outcome : StreamOutcome)
      (found : s.streams[id]? = some state) :
      Work id 0 s { s with
        streams := s.streams.erase id
        events := s.events ++ [.streamClosed state.handle outcome] }
  | marked {s : Session} {id : UInt32} {state : StreamState} (new : StreamState)
      (found : s.streams[id]? = some state) (same : new.handle = state.handle) :
      Work id 0 s { s with streams := s.streams.insert id new }
  | ended {s : Session} {id : UInt32} {state : StreamState}
      (found : s.streams[id]? = some state) :
      Work id 1 s { s with
        streams := s.streams.insert id { state with remoteOpen := false }
        events := s.events ++ [.remoteEnd state.handle] }
  | added {s : Session} {id : UInt32} (owner : StreamOwner) (protocol : Protocol)
      (live : s.closed = false) (nonzero : id ≠ 0)
      (slots : s.streams.size < s.resources.limits.streamsPerConnection) :
      Work id 2 s (s.enrolled ⟨s.handle.id, owner, id, nonzero⟩ protocol)
  | opened {s : Session} {id : UInt32} {ids : StreamIds} {payload : List UInt8} {f : WireFrame}
      {lease : Reservation} {resources : Resources} (owner : StreamOwner) (protocol : Protocol)
      (live : s.closed = false) (nonzero : id ≠ 0)
      (slots : s.streams.size < s.resources.limits.streamsPerConnection)
      (valid : s.ids.Valid) (allocated : s.ids.allocate = (.ok id, ids))
      (fits : s.Fits .open_ id payload f lease resources) :
      Work id 2 s ((({ s with ids } : Session).enrolled ⟨s.handle.id, owner, id, nonzero⟩
        protocol).pushed f lease resources)

/-- Changes on behalf of the streams in `I`, of at most `n` together. -/
inductive Works (I : UInt32 → Prop) : Nat → Session → Session → Prop
  | refl (s : Session) (n : Nat) : Works I n s s
  | tail {n k : Nat} {id : UInt32} {s s' s'' : Session} (h : Works I n s s') (mine : I id)
      (work : Work id k s' s'') : Works I (n + k) s s''

variable {s s' s'' : Session} {I : UInt32 → Prop} {id : UInt32} {n k : Nat}

theorem Works.single (mine : I id) (work : Work id k s s') : Works I k s s' :=
  Nat.zero_add k ▸ .tail (.refl s 0) mine work

theorem Works.trans (h : Works I n s s') (h' : Works I k s' s'') : Works I (n + k) s s'' := by
  induction h' with
  | refl s' k =>
    induction h with
    | refl => exact .refl _ _
    | tail _ mine work ih => exact Nat.add_right_comm .. ▸ ih.tail mine work
  | tail _ mine work ih => exact Nat.add_assoc .. ▸ (ih h).tail mine work

theorem Works.mono {J : UInt32 → Prop} (h : Works I n s s') (hon : ∀ id, I id → J id)
    (hn : n ≤ k) : Works J k s s' := by
  have hsame : Works J n s s' := by
    clear hn
    induction h with
    | refl s n => exact .refl s n
    | tail _ mine work ih => exact ih.tail (hon _ mine) work
  obtain ⟨m, rfl⟩ := Nat.exists_eq_add_of_le hn
  exact hsame.trans (.refl s' m)

/-- What every change keeps and what composes holds along all of them. -/
theorem Works.lift {P : Session → Prop} {R : Session → Session → Prop} (refl : ∀ s, R s s)
    (trans : ∀ {s s' s''}, R s s' → R s' s'' → R s s'')
    (step : ∀ {id k s s'}, I id → Work id k s s' → P s → P s' ∧ R s s')
    (h : Works I n s s') (hs : P s) : P s' ∧ R s s' := by
  induction h with
  | refl => exact ⟨hs, refl _⟩
  | tail _ mine work ih =>
    obtain ⟨hs', hr⟩ := ih hs
    obtain ⟨hs'', hr'⟩ := step mine work hs'
    exact ⟨hs'', trans hr hr'⟩

theorem Fits.works {kind : FrameType} {payload : List UInt8} {f : WireFrame}
    {lease : Reservation} {resources : Resources} (fits : s.Fits kind id payload f lease resources)
    (hk : kind ≠ .open_) (mine : I id) : Works I 0 s (s.pushed f lease resources) := by
  obtain ⟨rfl, rfl, -, room⟩ := fits
  exact .single mine (.pushed hk room)

theorem refuse_works (s : Session) {code : ErrorCode} (hc : code ≠ .noError) (mine : I id) :
    Works I 0 s (s.refuse id code).2 := by
  rcases refuse_fits s id hc with h | ⟨f, lease, resources, fits, h⟩ <;> rw [h]
  · exact .refl s 0
  · exact fits.works (by decide) mine

theorem terminate_works (s : Session) (outcome : StreamOutcome) (mine : I id) :
    Works I 0 s (s.terminate id outcome) := by
  have purged : Works I 0 s _ := .single mine (.purged id)
  simp only [terminate]
  split
  case h_1 => exact purged
  case h_2 state found => exact purged.trans (.single mine (.dropped outcome found))

theorem complete_works (s : Session) (mine : I id) : Works I 0 s (s.complete id) := by
  unfold complete
  split
  case h_1 => exact .refl s 0
  case h_2 state found =>
  split
  case isTrue => exact .single mine (.dropped .completed found)
  case isFalse => exact .refl s 0

theorem failStream_works (s : Session) {wire : ErrorCode} (hw : wire ≠ .noError)
    (code : FailureCode) (mine : I id) : Works I 0 s (s.failStream id wire code).2 :=
  (terminate_works s _ mine).trans (refuse_works _ hw mine)

theorem foldl_terminate_works (s : Session) (outcome : StreamOutcome) {ids : List UInt32}
    (mine : ∀ id ∈ ids, I id) :
    Works I 0 s (ids.foldl (fun s id => s.terminate id outcome) s) := by
  induction ids generalizing s with
  | nil => exact .refl s 0
  | cons id ids ih =>
    exact (terminate_works s outcome (mine id List.mem_cons_self)).trans
      (ih _ fun j hj => mine j (List.mem_cons_of_mem id hj))

theorem drain_works (s : Session) (reason : ShutdownReason) (mine : I 0) :
    Works I 0 s (s.drain reason).2 := by
  have ha := s.drain_answer reason
  generalize s.drain reason = out at ha ⊢
  cases ha with
  | refused => exact .refl s 0
  | served a done =>
    cases done with
    | draining => exact .refl s 0
    | drain live unsent fits =>
      exact (fits.works (by decide) mine).trans
        (.single mine (.tuned 0 s.peerGoaway s.drainFailure s.acceptedRemote true))

theorem sent_works (s : Session) (kind : FrameType) (mine : I id) :
    Works I 0 { s with goawayWritten := decide (kind = .goAway) || s.goawayWritten }
      (s.sent kind id) := by
  have hg : (if kind = .goAway then { s with goawayWritten := true } else s : Session) =
      { s with goawayWritten := decide (kind = .goAway) || s.goawayWritten } := by
    split <;> simp [*]
  simp only [sent, ← hg]
  generalize (if kind = .goAway then { s with goawayWritten := true } else s : Session) = s₁
  split
  case isFalse => exact .refl s₁ 0
  case isTrue =>
    split
    case h_1 => exact complete_works s₁ mine
    case h_2 state found =>
      exact (Works.single mine (.marked { state with localEndWritten := !state.localOpen } found
        rfl)).trans (complete_works _ mine)

theorem receiveGoaway_works (s : Session) (payload : List UInt8) (mine : ∀ id, I id) :
    Works I 0 s (s.receiveGoaway payload).2 := by
  unfold receiveGoaway
  split
  case h_1 => exact .refl s 0
  case h_2 goaway _ =>
  simp only
  split
  case isTrue => exact .refl s 0
  case isFalse =>
    generalize hb : (if goaway.code ≠ .noError then _ else _ : Session) = base
    have hbase : Works I 0 s base := by
      rw [← hb]
      split <;> exact .single (mine 0) (.tuned 0 _ _ s.acceptedRemote s.goawaySent)
    exact hbase.trans ((foldl_terminate_works base _ fun id _ => mine id).trans
      (drain_works _ .normal (mine 0)))

theorem receiveEnd_works (s : Session) (payload : List UInt8) (mine : I id) :
    Works I 1 s (s.receiveEnd id payload).2 := by
  unfold receiveEnd
  split
  case h_1 => exact .refl s 1
  case h_2 state found =>
  split
  case isTrue =>
    exact (failStream_works s (by decide) .streamState mine).mono (fun _ h => h) (by omega)
  case isFalse => exact (Works.single mine (.ended found)).trans (complete_works _ mine)

theorem receiveOpen_works (live : s.closed = false) (payload : List UInt8) (registry : Registry)
    (mine : I id) : Works I 2 s (s.receiveOpen id payload registry).2 := by
  unfold receiveOpen
  split
  case h_1 => exact .refl s 2
  case h_2 ids accepted =>
  have hids : Works I 0 s { s with ids } := .single mine (.accepted accepted)
  have hrefuse : ∀ {code : ErrorCode}, code ≠ .noError →
      Works I 2 s (({ s with ids } : Session).refuse id code).2 := fun hc =>
    (hids.trans (refuse_works _ hc mine)).mono (fun _ h => h) (by omega)
  simp only
  split
  case isTrue => exact hrefuse (by decide)
  case isFalse =>
  split
  case isTrue => exact hrefuse (by decide)
  case isFalse hslots =>
  split
  case h_1 => exact hrefuse (by decide)
  case h_2 selection _ =>
  split
  case h_1 => exact hrefuse (by decide)
  case h_2 owner _ =>
  by_cases h0 : id = 0
  · have htuned : Works I 2 { s with ids } { s with ids, acceptedRemote := id } :=
      (Works.single mine (.tuned id s.peerGoaway s.drainFailure id s.goawaySent)).mono
        (fun _ h => h) (by omega)
    simp only [add, dif_pos h0]
    split
    · exact (hids.trans (.refl _ 2))
    · exact hids.trans htuned
  · have htuned : Works I 0 { s with ids } { s with
        ids, acceptedRemote := if ids.isLocal id then s.acceptedRemote else id } :=
      .single mine (.tuned id s.peerGoaway s.drainFailure _ s.goawaySent)
    simp only [add_eq _ h0]
    have hadded := Work.added (s := { s with
      ids, acceptedRemote := if ids.isLocal id then s.acceptedRemote else id }) owner
      ⟨selection.id, selection.version⟩ live h0 (not_le.mp hslots)
    exact hids.trans (htuned.trans (.single mine hadded))

/-- What a frame does once it is admitted. -/
inductive Parted (s : Session) (kind : FrameType) (id : UInt32) (payload : List UInt8) :
    Except SessionError Unit × Session → Prop
  | worked {result : Except SessionError Unit} {s' : Session}
      (works : Works (fun j => id ≠ 0 → j = id) 2 s s') : Parted s kind id payload (result, s')
  | data {state : StreamState} (found : s.streams[id]? = some state)
      (room : s.buffered id + payload.length ≤ s.resources.limits.bufferedBytesPerStream) :
      Parted s kind id payload
        (.ok (), { s with events := s.events ++ [.data state.handle payload] })
  | answered {token : Token} {started deadline now : Instant} (pong : kind = .pong)
      (named : PingToken.decode payload = .ok token)
      (waiting : s.pings[token]? = some (started, deadline)) (clock : s.now = some now)
      (order : started ≤ now) :
      Parted s kind id payload (.ok (), { s with
        pings := s.pings.erase token
        events := s.events ++ [.pingFinished s.handle.id token (.ok (now - started))] })
  | stale {token : Token} {started deadline : Instant} (pong : kind = .pong)
      (named : PingToken.decode payload = .ok token)
      (waiting : s.pings[token]? = some (started, deadline))
      (order : ∀ now, s.now = some now → now < started) :
      Parted s kind id payload (.error .protocol, { s with pings := s.pings.erase token })
  | fatal (code : ErrorCode) :
      Parted s kind id payload (.ok (), s.close (some ⟨.peer, failureCode code⟩) none)

theorem Parted.of_works {kind : FrameType} {payload : List UInt8}
    {out : Except SessionError Unit × Session} (hn : n ≤ 2)
    (works : Works (fun j => id ≠ 0 → j = id) n s out.2) : Parted s kind id payload out :=
  .worked (works.mono (fun _ h => h) hn)

theorem receivePing_parted (s : Session) {kind : FrameType} (hk : kind = .ping ∨ kind = .pong)
    (payload : List UInt8) : Parted s kind 0 payload (s.receivePing kind payload) := by
  unfold receivePing
  split
  case h_1 => exact .worked (.refl s 2)
  case h_2 token named =>
  split
  case isTrue =>
    obtain ⟨f, hf, ht, hi, hp⟩ := frame_eq .pong 0
      (show token.toList.length ≤ _ by simp [maxPayloadBytes]) rfl
    simp only [hf]
    rcases queue_fits s ht hi hp with ⟨-, hq⟩ | ⟨lease, resources, fits, hq⟩ <;> rw [hq]
    · exact .worked (.refl s 2)
    · exact .of_works (Nat.zero_le 2) (fits.works (by decide) fun _ => rfl)
  case isFalse hping =>
    have pong := hk.resolve_left hping
    split
    case h_1 => exact .worked (.refl s 2)
    case h_2 started deadline waiting =>
      simp only
      split
      case h_1 h =>
        refine .stale pong named waiting fun now hnow => ?_
        simp only [hnow, Option.bind_some, Instant.checkedDurationSince] at h
        split_ifs at h with horder
        exact not_le.mp horder
      case h_2 elapsed h =>
        obtain ⟨now, hnow, h⟩ := Option.bind_eq_some_iff.mp h
        simp only [Instant.checkedDurationSince] at h
        split_ifs at h with horder
        obtain rfl := Option.some.inj h
        exact .answered pong named waiting hnow horder

theorem receiveData_parted (s : Session) (kind : FrameType) (payload : List UInt8) :
    Parted s kind id payload (s.receiveData id payload) := by
  have hfail : ∀ {wire : ErrorCode} (code : FailureCode), wire ≠ .noError →
      Parted s kind id payload (s.failStream id wire code) := fun code hw =>
    .of_works (Nat.zero_le 2) (failStream_works s hw code fun _ => rfl)
  unfold receiveData
  split
  case h_1 => exact .worked (.refl s 2)
  case h_2 state found =>
  split
  case isTrue => exact hfail _ (by decide)
  case isFalse =>
  split
  case isTrue => exact hfail _ (by decide)
  case isFalse =>
  split
  case isTrue => exact hfail _ (by decide)
  case isFalse room => exact .data found (not_lt.mp room)

theorem receiveParts_parted (live : s.closed = false) (kind : FrameType) (id : UInt32)
    (payload : List UInt8) (registry : Registry) :
    Parted s kind id payload (s.receiveParts kind id payload registry) := by
  have hskip : ∀ result, Parted s kind id payload (result, s) :=
    fun result => .worked (.refl s 2)
  unfold receiveParts
  by_cases hgo : kind = .goAway ∧ id = 0
  · rw [if_pos hgo]
    exact .of_works (Nat.zero_le 2)
      (receiveGoaway_works s payload fun _ h0 => absurd hgo.2 h0)
  rw [if_neg hgo]
  by_cases hping : (kind = .ping ∨ kind = .pong) ∧ id = 0
  · rw [if_pos hping, hping.2]
    exact receivePing_parted s hping.1 payload
  rw [if_neg hping]
  by_cases herr : kind = .error ∧ id = 0
  · rw [if_pos herr]
    split
    · exact hskip _
    · exact .fatal _
  rw [if_neg herr]
  split_ifs with hcr hact hstop hend hdata ho
  · exact hskip _
  · exact hskip _
  · split
    · exact hskip _
    · exact .of_works (Nat.zero_le 2) (terminate_works s _ fun _ => rfl)
  · exact .of_works (Nat.le_succ 1) (receiveEnd_works s payload fun _ => rfl)
  · exact receiveData_parted s kind payload
  · exact hskip _
  · exact .of_works le_rfl (receiveOpen_works live payload registry fun _ => rfl)

/-- What `receive` does, by its result and the state it leaves. -/
inductive Dispatched (s : Session) (f : VerifiedFrame) (registry : Registry) (now : Instant) :
    Except SessionError Unit × Session → Prop
  | late (ceased : s.closed = true) : Dispatched s f registry now (.error .closed, s)
  | crowded (live : s.closed = false)
      (full : (s.tick now).eventLimit ≤ (s.tick now).events.length) :
      Dispatched s f registry now
        (.error .capacity, (s.tick now).close (some ⟨.local_, .resourceLimit⟩) none)
  | failed {e : SessionError} {s' : Session} (live : s.closed = false)
      (room : (s.tick now).events.length < (s.tick now).eventLimit) {failure : Failure}
      {code : ErrorCode}
      (cause : failure = ⟨.local_, .resourceLimit⟩ ∧ code = .resourceLimit ∨
        failure = ⟨.local_, .protocolViolation⟩ ∧ code = .protocolError)
      (parts : (s.tick now).receiveParts f.wire.header.frameType f.wire.header.streamId
        f.wire.payload registry = (.error e, s')) :
      Dispatched s f registry now (.error e, s'.close (some failure) (some code))
  | served {s' : Session} (live : s.closed = false)
      (room : (s.tick now).events.length < (s.tick now).eventLimit)
      (parts : (s.tick now).receiveParts f.wire.header.frameType f.wire.header.streamId
        f.wire.payload registry = (.ok (), s')) :
      Dispatched s f registry now (.ok (), s')

theorem receive_dispatched (s : Session) (f : VerifiedFrame) (registry : Registry)
    (now : Instant) : Dispatched s f registry now (s.receive f registry now) := by
  unfold receive
  split
  case isTrue hc => exact .late hc
  case isFalse hc =>
  have live : s.closed = false := by simpa using hc
  simp only
  split
  case isTrue full => exact .crowded live full
  case isFalse hroom =>
    have room := not_le.mp hroom
    split
    case h_1 h => exact .served live room h
    case h_2 h => exact .failed live room (.inl ⟨rfl, rfl⟩) h
    case h_3 h => exact .failed live room (.inr ⟨rfl, rfl⟩) h

/-- What a call does to its session. -/
inductive Turn (s : Session) : Call → Session → Prop
  | worked {c : Call} {n : Nat} {s' : Session}
      (works : Works (fun j => ∀ id ∈ c.stream?, j = id) n s s') (few : n ≤ 2)
      (room : n = 0 ∨ s.events.length < s.eventLimit) : Turn s c s'
  | overfull {owner : StreamOwner} {stream : StreamHandle} {reason : CancellationReason}
      (lacks : Lacks s owner stream reason) :
      Turn s (.cancel owner stream reason)
        ((s.terminate stream.wireId (.cancelled .local_ reason)).close
          (some ⟨.local_, .resourceLimit⟩) none)
  | pinged {token : Token} {timeout : Duration} {now : Instant} {s' : Session}
      (works : Works (· = 0) 0 s s') (live : s.closed = false) (few : s.pings.size < 64) :
      Turn s (.ping token timeout now) { s' with
        pings := s.pings.insert token (now, now + timeout) }
  | ticked (now : Instant) : Turn s (.tick now) (s.tick now)
  | read {c : Call} {events : List Event} (reads : c.isRead = true)
      (less : events.Sublist s.events) : Turn s c { s with events }
  | taken (last : Option UInt32) (outbound : List WireFrame) :
      Turn s .popOutbound { s with lastOutput := last, outbound }
  | sent (kind : FrameType) (id : UInt32) : Turn s (.sent kind id) (s.sent kind id)
  | received (f : VerifiedFrame) (registry : Registry) (now : Instant) :
      Turn s (.receive f registry now) (s.receive f registry now).2
  | closed (failure : Option Failure) (response : Option ErrorCode) :
      Turn s (.close failure response) (s.close failure response)
  | lent (used : Nat) : Turn s (.budget used) { s with
      resources := { s.resources with outboundUsed := used } }

theorem Served.turn (hv : s.ids.Valid) {c : Call} (done : Served s c s') : Turn s c s' := by
  cases done with
  | open_ live unsent unheard events slots allocated nonzero fits =>
    exact .worked (.single (by rintro _ ⟨⟩)
      (.opened _ _ live nonzero slots hv allocated fits)) le_rfl (.inr events)
  | send live found going content fits =>
    exact .worked (fits.works (by decide) (by rintro _ ⟨⟩; rfl)) (Nat.zero_le 2) (.inl rfl)
  | end_ live found going fits =>
    exact .worked ((fits.works (by decide) (by rintro _ ⟨⟩; rfl)).trans
      (.single (by rintro _ ⟨⟩; rfl) (.marked _ found rfl))) (Nat.zero_le 2) (.inl rfl)
  | cancel live found fits =>
    exact .worked ((terminate_works s _ (by rintro _ ⟨⟩; rfl)).trans
      (fits.works (by decide) (by rintro _ ⟨⟩; rfl))) (Nat.zero_le 2) (.inl rfl)
  | overfull lacks => exact .overfull lacks
  | ping live fresh few fits => exact .pinged (fits.works (by decide) rfl) live few
  | draining => exact .worked (.refl s 0) (Nat.zero_le 2) (.inl rfl)
  | drain live unsent fits =>
    exact .worked ((fits.works (by decide) (by rintro _ ⟨⟩)).trans (.single (by rintro _ ⟨⟩)
      (.tuned 0 s.peerGoaway s.drainFailure s.acceptedRemote true))) (Nat.zero_le 2) (.inl rfl)

theorem Answer.turn {α : Type} (hv : s.ids.Valid) {c : Call}
    {out : Except SessionError α × Session} (answer : Answer s c out) : Turn s c out.2 := by
  cases answer with
  | refused => exact .worked (.refl s 0) (Nat.zero_le 2) (.inl rfl)
  | served a done => exact done.turn hv

theorem open_turn (hv : s.ids.Valid) (registry : Registry) (owner : StreamOwner) :
    Turn s (.open_ registry owner) (s.open_ registry owner).2 := by
  have ha := open_answer hv registry owner
  generalize s.open_ registry owner = out at ha ⊢
  cases ha with
  | answer answer => exact answer.turn hv
  | exhausted drained =>
    have hw := s.drain_works (I := fun _ => True) .idExhausted trivial
    rw [drained] at hw
    exact .worked (hw.mono (fun _ _ => by rintro _ ⟨⟩) le_rfl) (Nat.zero_le 2) (.inl rfl)

end Session

end TalkSphere
