import TalkSphere.SessionSteps

/-! The calls of drivers and consumers, and what those of consumers answer. Each of them is
read once here: it is refused and leaves the session, or it is served and what it found is on
record. -/

namespace TalkSphere

open Std (TreeMap)

/-- `budget` is the traffic of other connections on the shared outbound counter. -/
inductive Call
  | open_ (registry : Registry) (owner : StreamOwner)
  | send (owner : StreamOwner) (stream : StreamHandle) (bytes : List UInt8)
  | end_ (owner : StreamOwner) (stream : StreamHandle)
  | cancel (owner : StreamOwner) (stream : StreamHandle) (reason : CancellationReason)
  | ping (token : Token) (timeout : Duration) (now : Instant)
  | drain (reason : ShutdownReason)
  | tick (now : Instant)
  | popEvent
  | popStreamEvent (owner : StreamOwner)
  | popOutbound
  | sent (kind : FrameType) (id : UInt32)
  | receive (f : VerifiedFrame) (registry : Registry) (now : Instant)
  | close (failure : Option Failure) (response : Option ErrorCode)
  | budget (used : Nat)

namespace Session

def enrolled (s : Session) (stream : StreamHandle) (protocol : Protocol) : Session :=
  { s with
    streams := s.streams.insert stream.wireId ⟨stream, true, true, false⟩
    events := s.events ++ [.streamOpened s.context stream protocol] }

/-- A stream is to be cancelled, and there is no room for the frame that says so. -/
structure Lacks (s : Session) (owner : StreamOwner) (stream : StreamHandle)
    (reason : CancellationReason) : Prop where
  live : s.closed = false
  authorized : stream.authorize s.handle.id owner = .ok ()
  found : ∃ state, s.streams[stream.wireId]? = some state
  full : (s.terminate stream.wireId (.cancelled .local_ reason)).resources.outbound
    ((ErrorPayload.encode ⟨⟨cancellationCode reason, ""⟩⟩).length + queuedOverhead) = none

/-- What a call that succeeds finds, and what it leaves. -/
inductive Served (s : Session) : Call → Session → Prop
  | open_ {registry : Registry} {owner : StreamOwner} {protocol : Protocol} {payload : List UInt8}
      {id : UInt32} {ids : StreamIds} {f : WireFrame} {lease : Reservation}
      {resources : Resources} (live : s.closed = false) (unsent : s.goawaySent = false)
      (unheard : s.peerGoaway = none) (events : s.events.length < s.eventLimit)
      (slots : s.streams.size < s.resources.limits.streamsPerConnection)
      (allocated : s.ids.allocate = (.ok id, ids)) (nonzero : id ≠ 0)
      (fits : s.Fits .open_ id payload f lease resources) :
      Served s (.open_ registry owner) ((({ s with ids } : Session).enrolled
        ⟨s.handle.id, owner, id, nonzero⟩ protocol).pushed f lease resources)
  | send {owner : StreamOwner} {stream : StreamHandle} {bytes : List UInt8} {state : StreamState}
      {f : WireFrame} {lease : Reservation} {resources : Resources} (live : s.closed = false)
      (found : s.streams[stream.wireId]? = some state) (going : state.localOpen = true)
      (content : bytes ≠ []) (fits : s.Fits .data stream.wireId bytes f lease resources) :
      Served s (.send owner stream bytes) (s.pushed f lease resources)
  | end_ {owner : StreamOwner} {stream : StreamHandle} {state : StreamState} {f : WireFrame}
      {lease : Reservation} {resources : Resources} (live : s.closed = false)
      (found : s.streams[stream.wireId]? = some state) (going : state.localOpen = true)
      (fits : s.Fits .end_ stream.wireId [] f lease resources) :
      Served s (.end_ owner stream) { s.pushed f lease resources with
        streams := s.streams.insert stream.wireId { state with localOpen := false } }
  | cancel {owner : StreamOwner} {stream : StreamHandle} {reason : CancellationReason}
      {state : StreamState} {f : WireFrame} {lease : Reservation} {resources : Resources}
      (live : s.closed = false) (found : s.streams[stream.wireId]? = some state)
      (fits : (s.terminate stream.wireId (.cancelled .local_ reason)).Fits .cancel stream.wireId
        (ErrorPayload.encode ⟨⟨cancellationCode reason, ""⟩⟩) f lease resources) :
      Served s (.cancel owner stream reason)
        ((s.terminate stream.wireId (.cancelled .local_ reason)).pushed f lease resources)
  | overfull {owner : StreamOwner} {stream : StreamHandle} {reason : CancellationReason}
      (lacks : Lacks s owner stream reason) :
      Served s (.cancel owner stream reason)
        ((s.terminate stream.wireId (.cancelled .local_ reason)).close
          (some ⟨.local_, .resourceLimit⟩) none)
  | ping {token : Token} {timeout : Duration} {now : Instant} {f : WireFrame}
      {lease : Reservation} {resources : Resources} (live : s.closed = false)
      (fresh : s.pings[token]? = none) (few : s.pings.size < 64)
      (fits : s.Fits .ping 0 token.toList f lease resources) :
      Served s (.ping token timeout now) { s.pushed f lease resources with
        pings := s.pings.insert token (now, now + timeout) }
  | draining {reason : ShutdownReason} (live : s.closed = false) (already : s.goawaySent = true) :
      Served s (.drain reason) s
  | drain {reason : ShutdownReason} {f : WireFrame} {lease : Reservation} {resources : Resources}
      (live : s.closed = false) (unsent : s.goawaySent = false)
      (fits : s.Fits .goAway 0 (GoAway.encode ⟨s.acceptedRemote, ⟨shutdownCode reason, ""⟩⟩)
        f lease resources) :
      Served s (.drain reason) { s.pushed f lease resources with goawaySent := true }

inductive Answer {α : Type} (s : Session) (c : Call) : Except SessionError α × Session → Prop
  | refused {e : SessionError} (other : ∀ i, e ≠ .id i) : Answer s c (.error e, s)
  | served (a : α) {s' : Session} (done : Served s c s') : Answer s c (.ok a, s')

variable {s : Session}

theorem send_answer (s : Session) (owner : StreamOwner) (stream : StreamHandle)
    (bytes : List UInt8) : Answer s (.send owner stream bytes) (s.send owner stream bytes) := by
  unfold send
  split
  case isTrue => exact .refused (by rintro _ ⟨⟩)
  case isFalse hc =>
  split
  case h_1 => exact .refused (by rintro _ ⟨⟩)
  case h_2 =>
  split
  case isTrue => exact .refused (by rintro _ ⟨⟩)
  case isFalse hl =>
  split
  case isTrue => exact .refused (by rintro _ ⟨⟩)
  case isFalse hb =>
  simp only [not_or, not_lt, gt_iff_lt] at hb
  simp only [Bool.not_eq_true', Bool.not_eq_false, Option.any_eq_true] at hl
  obtain ⟨state, found, going⟩ := hl
  obtain ⟨f, hf, hk, hi, hp⟩ := frame_eq .data stream.wireId hb.2
    (by simp [FrameType.validStreamId, stream.wireId_ne_zero])
  simp only [hf]
  rcases queue_fits s hk hi hp with ⟨full, hq⟩ | ⟨lease, resources, fits, hq⟩ <;> rw [hq]
  · exact .refused (by rintro _ ⟨⟩)
  · exact .served () (.send (Bool.eq_false_iff.mpr hc) found going hb.1 fits)

theorem end_answer (s : Session) (owner : StreamOwner) (stream : StreamHandle) :
    Answer s (.end_ owner stream) (s.end_ owner stream) := by
  unfold end_
  split
  case isTrue => exact .refused (by rintro _ ⟨⟩)
  case isFalse hc =>
  split
  case h_1 => exact .refused (by rintro _ ⟨⟩)
  case h_2 =>
  split
  case h_1 => exact .refused (by rintro _ ⟨⟩)
  case h_2 state found =>
  split
  case isTrue => exact .refused (by rintro _ ⟨⟩)
  case isFalse hl =>
  obtain ⟨f, hf, hk, hi, hp⟩ := frame_eq .end_ stream.wireId
    (show ([] : List UInt8).length ≤ _ by simp)
    (by simp [FrameType.validStreamId, stream.wireId_ne_zero])
  simp only [hf]
  split
  case h_1 => exact .refused (by rintro _ ⟨⟩)
  case h_2 lease resources hr =>
    have room : s.resources.outbound (f.payload.length + queuedOverhead) =
        some (lease, resources) := by
      rw [hp, List.length_nil, Nat.zero_add]
      exact hr
    exact .served () (.end_ (Bool.eq_false_iff.mpr hc) found (by simpa using hl)
      ⟨hk, hi, hp, room⟩)

theorem cancel_answer (s : Session) (owner : StreamOwner) (stream : StreamHandle)
    (reason : CancellationReason) :
    Answer s (.cancel owner stream reason) (s.cancel owner stream reason) := by
  unfold cancel
  split
  case isTrue => exact .refused (by rintro _ ⟨⟩)
  case isFalse hc =>
  split
  case h_1 => exact .refused (by rintro _ ⟨⟩)
  case h_2 authorized =>
  simp only
  split
  case isTrue => exact .refused (by rintro _ ⟨⟩)
  case isFalse hl =>
  simp only [Bool.not_eq_true', Bool.not_eq_false, TreeMap.contains_eq_isSome_getElem?,
    Option.isSome_iff_exists] at hl
  obtain ⟨state, found⟩ := hl
  have live : s.closed = false := Bool.eq_false_iff.mpr hc
  have hcode : cancellationCode reason ≠ .noError := by cases reason <;> decide
  have hlen : (ErrorPayload.encode ⟨⟨cancellationCode reason, ""⟩⟩).length ≤ maxPayloadBytes := by
    simp [ErrorPayload.encode, Diagnostic.encode_blank_length, maxPayloadBytes]
  obtain ⟨f, hf, hk, hi, hp⟩ := frame_eq .cancel stream.wireId hlen
    (by simp [FrameType.validStreamId, stream.wireId_ne_zero])
  simp only [ErrorPayload.new_blank hcode, hf]
  rcases queue_fits (s.terminate stream.wireId (.cancelled .local_ reason)) hk hi hp with
    ⟨full, hq⟩ | ⟨lease, resources, fits, hq⟩ <;> simp only [hq]
  · exact .served () (.overfull ⟨live, authorized, ⟨state, found⟩, full⟩)
  · exact .served () (.cancel live found fits)

theorem ping_answer (s : Session) (token : Token) (timeout : Duration) (now : Instant) :
    Answer s (.ping token timeout now) (s.ping token timeout now) := by
  unfold ping
  split
  case isTrue => exact .refused (by rintro _ ⟨⟩)
  case isFalse hc =>
  split
  case isTrue => exact .refused (by rintro _ ⟨⟩)
  case isFalse hnew =>
  split
  case isTrue => exact .refused (by rintro _ ⟨⟩)
  case isFalse few =>
  split
  case h_1 => exact .refused (by rintro _ ⟨⟩)
  case h_2 deadline hd =>
  have hdeadline : deadline = now + timeout := by
    simp only [Instant.checkedAdd] at hd
    split_ifs at hd
    exact (Option.some.inj hd).symm
  have fresh : s.pings[token]? = none := by
    simp only [not_or, Bool.not_eq_true] at hnew
    rw [← Option.not_isSome_iff_eq_none, TreeMap.isSome_getElem?_eq_contains, hnew.2]
    exact Bool.false_ne_true
  subst hdeadline
  obtain ⟨f, hf, hk, hi, hp⟩ := frame_eq .ping 0
    (show token.toList.length ≤ _ by simp [maxPayloadBytes]) rfl
  simp only [hf]
  rcases queue_fits s hk hi hp with ⟨full, hq⟩ | ⟨lease, resources, fits, hq⟩ <;> simp only [hq]
  · exact .refused (by rintro _ ⟨⟩)
  · exact .served () (.ping (Bool.eq_false_iff.mpr hc) fresh (not_le.mp few) fits)

/-- The frame of a drain, whatever the budget has left. -/
theorem drain_eq (live : s.closed = false) (unsent : s.goawaySent = false)
    (reason : ShutdownReason) : ∃ f, f.header.frameType = .goAway ∧ f.header.streamId = 0 ∧
      f.payload = GoAway.encode ⟨s.acceptedRemote, ⟨shutdownCode reason, ""⟩⟩ ∧
      ∀ resources : Resources,
        (resources.outbound (f.payload.length + queuedOverhead) = none ∧
          ({ s with resources } : Session).drain reason =
            (.error .capacity, { s with resources })) ∨
        ∃ lease left, resources.outbound (f.payload.length + queuedOverhead) = some (lease, left) ∧
          ({ s with resources } : Session).drain reason =
            (.ok (), { s.pushed f lease left with goawaySent := true }) := by
  have hlen : (GoAway.encode ⟨s.acceptedRemote, ⟨shutdownCode reason, ""⟩⟩).length ≤
      maxPayloadBytes := by
    simp [GoAway.encode, Diagnostic.encode_blank_length, BigEndian.encode_length, maxPayloadBytes]
  obtain ⟨f, hf, hk, hi, hp⟩ := frame_eq .goAway 0 hlen rfl
  refine ⟨f, hk, hi, hp, fun resources => ?_⟩
  simp only [drain, if_neg (Bool.eq_false_iff.mp live), if_neg (Bool.eq_false_iff.mp unsent),
    GoAway.new_blank, hf, queue]
  cases hr : resources.outbound (f.payload.length + queuedOverhead) with
  | none => exact .inl ⟨rfl, rfl⟩
  | some r => exact .inr ⟨r.1, r.2, rfl, rfl⟩

theorem drain_served (live : s.closed = false) (reason : ShutdownReason) :
    s.drain reason = (.error .capacity, s) ∨
    ∃ s', s.drain reason = (.ok (), s') ∧ Served s (.drain reason) s' := by
  by_cases hg : s.goawaySent = true
  · rw [drain, if_neg (Bool.eq_false_iff.mp live), if_pos hg]
    exact .inr ⟨s, rfl, .draining live hg⟩
  have unsent : s.goawaySent = false := Bool.eq_false_iff.mpr hg
  obtain ⟨f, hk, hi, hp, hd⟩ := drain_eq live unsent reason
  rcases hd s.resources with ⟨-, hd⟩ | ⟨lease, left, room, hd⟩
  · exact .inl hd
  · exact .inr ⟨_, hd, .drain live unsent ⟨hk, hi, hp, room⟩⟩

theorem drain_answer (s : Session) (reason : ShutdownReason) :
    Answer s (.drain reason) (s.drain reason) := by
  by_cases hc : s.closed = true
  · rw [drain, if_pos hc]
    exact .refused (by rintro _ ⟨⟩)
  · rcases drain_served (Bool.eq_false_iff.mpr hc) reason with hd | ⟨s', hd, done⟩ <;> rw [hd]
    · exact .refused (by rintro _ ⟨⟩)
    · exact .served () done

/-- Draining with more of the budget taken: it fails and leaves the session, or it does
what it does with less of the budget taken. -/
theorem drain_reserved {amount : Nat} {lease : Reservation} {resources : Resources}
    (hr : s.resources.outbound amount = some (lease, resources)) (live : s.closed = false)
    (unsent : s.goawaySent = false) (reason : ShutdownReason) :
    ({ s with resources } : Session).drain reason = (.error .capacity, { s with resources }) ∨
    ∃ s', ({ s with resources } : Session).drain reason = (.ok (), s') ∧
      s.drain reason =
        (.ok (), { s' with resources := s'.resources.releaseOutbound (some lease) }) := by
  obtain ⟨f, -, -, -, hd⟩ := drain_eq live unsent reason
  obtain ⟨rfl, rfl, hfit⟩ := Resources.outbound_eq_some hr
  rcases hd { s.resources with outboundUsed := s.resources.outboundUsed + amount } with
    ⟨-, hout⟩ | ⟨_, _, room, hout⟩
  · exact .inl hout
  obtain ⟨rfl, rfl, hroom⟩ := Resources.outbound_eq_some room
  refine .inr ⟨_, hout, ?_⟩
  simp only at hroom
  rcases hd s.resources with ⟨hnone, -⟩ | ⟨_, _, room', hout'⟩
  · rw [Resources.outbound_eq_none] at hnone
    omega
  obtain ⟨rfl, rfl, -⟩ := Resources.outbound_eq_some room'
  have hback : ({ s.resources with outboundUsed := s.resources.outboundUsed + amount +
      (f.payload.length + queuedOverhead) } : Resources).releaseOutbound (some ⟨amount⟩) =
      { s.resources with
        outboundUsed := s.resources.outboundUsed + (f.payload.length + queuedOverhead) } := by
    rw [Resources.releaseOutbound_covered (by simp only; omega)]
    congr 1
    simp only
    omega
  rw [show s.drain reason = _ from hout']
  simp only [pushed, hback]

theorem add_eq (s : Session) {id : UInt32} (h0 : id ≠ 0) (owner : StreamOwner)
    (protocol : Protocol) :
    s.add id owner protocol = (.ok ⟨s.handle.id, owner, id, h0⟩, { s with
      acceptedRemote := if s.ids.isLocal id then s.acceptedRemote else id
      streams := s.streams.insert id ⟨⟨s.handle.id, owner, id, h0⟩, true, true, false⟩
      events := s.events ++
        [.streamOpened s.context ⟨s.handle.id, owner, id, h0⟩ protocol] }) := by
  simp only [add, dif_neg h0]
  split <;> rfl

/-- What `open` answers. Once there is an id nothing can fail; without one the session drains,
and says so unless there is no room for that. -/
inductive OpenAnswer (s : Session) (c : Call) : Except SessionError StreamHandle × Session → Prop
  | answer {out : Except SessionError StreamHandle × Session} (answer : Answer s c out) :
      OpenAnswer s c out
  | exhausted {s' : Session} (drained : s.drain .idExhausted = (.ok (), s')) :
      OpenAnswer s c (.error (.id .exhausted), s')

theorem open_answer (hv : s.ids.Valid) (registry : Registry) (owner : StreamOwner) :
    OpenAnswer s (.open_ registry owner) (s.open_ registry owner) := by
  unfold open_
  split
  case isTrue => exact .answer (.refused (by rintro _ ⟨⟩))
  case isFalse hc =>
  split
  case isTrue => exact .answer (.refused (by rintro _ ⟨⟩))
  case isFalse hd =>
  simp only [Bool.or_eq_true, not_or, Bool.not_eq_true, Option.isSome_eq_false_iff,
    Option.isNone_iff_eq_none] at hd
  split
  case h_1 => exact .answer (.refused (by rintro _ ⟨⟩))
  case h_2 protocol _ =>
  split
  case h_1 => exact .answer (.refused (by rintro _ ⟨⟩))
  case h_2 selection hsel =>
  simp only
  split
  case isTrue => exact .answer (.refused (by rintro _ ⟨⟩))
  case isFalse hlim =>
  rw [not_or, not_le, not_le] at hlim
  split
  case h_1 => exact .answer (.refused (by rintro _ ⟨⟩))
  case h_2 lease resources hr =>
  have live : s.closed = false := Bool.eq_false_iff.mpr hc
  split
  case h_1 e ids ha =>
    have he : e = .exhausted := by
      simp only [StreamIds.allocate] at ha
      split at ha
      case h_1 => exact (Except.error.inj (Prod.mk.inj ha).1).symm
      case h_2 => cases ha
    rcases drain_reserved hr live hd.1 .idExhausted with hout | ⟨s', hout, hdrain⟩ <;>
      simp only [hout]
    · rw [Resources.outbound_release hr]
      exact .answer (.refused (by rintro _ ⟨⟩))
    · rw [he]
      exact .exhausted hdrain
  case h_2 id ids ha =>
    obtain ⟨hn, hids⟩ := StreamIds.allocate_ok ha
    obtain ⟨hpar, -, -⟩ := StreamIds.following_eq_some hv.local_parity (hv.next_local ▸ hn)
    have h0 : id ≠ 0 := fun h0 => by simp [h0, StreamIds.ofParity] at hpar
    have hloc : ids.isLocal id = true := by rw [hids]; exact hpar
    obtain ⟨f, hf, hk, hi, hp⟩ := frame_eq .open_ id
      ((Open.encode_length_le hsel).trans (by decide)) (by simp [FrameType.validStreamId, h0])
    simp only [add_eq _ h0, hloc, if_true, hf]
    exact .answer (.served _ (.open_ live hd.1 hd.2 hlim.1 hlim.2 ha h0
      ⟨hk, hi, hp, by rw [hp]; exact hr⟩))

end Session

end TalkSphere
