import TalkSphere.Endpoint
import TalkSphere.FiniteMap

/-! A session seen as an endpoint. Each private operation of the session is
shown to be a sequence of endpoint steps. -/

namespace TalkSphere

open Std (TreeMap)
open Relation (ReflTransGen)

theorem frame_eq (kind : FrameType) (id : UInt32) {payload : List UInt8}
    (hl : payload.length ≤ maxPayloadBytes) (hv : kind.validStreamId id = true) :
    ∃ f, frame kind id payload = .ok f ∧ f.header.frameType = kind ∧ f.header.streamId = id ∧
      f.payload = payload := by
  have hn : (UInt32.ofNat payload.length).toNat = payload.length := by
    simp only [maxPayloadBytes] at hl
    simp only [UInt32.toNat_ofNat']
    omega
  have hle : (UInt32.ofNat payload.length).toNat ≤ maxPayloadBytes := by omega
  refine ⟨⟨none, ⟨kind, id, _, hle, hv⟩, payload, none, hn.symm⟩, ?_, rfl, rfl, rfl⟩
  rw [frame, FrameHeader.new, dif_pos hle, dif_pos hv]
  simp only [WireFrame.new]
  rw [dif_pos hn.symm]

theorem WireFrame.message_id (f : WireFrame) : f.message.id = f.header.streamId := by
  have hv := f.header.streamId_valid
  unfold WireFrame.message
  cases ht : f.header.frameType <;> simp only [ht, FrameType.validStreamId] at hv ⊢ <;>
    (try split) <;> (try split) <;> simp_all [Message.id]

theorem WireFrame.message_isOpen (f : WireFrame) :
    f.message.isOpen = (f.header.frameType == .open_) := by
  unfold WireFrame.message
  cases ht : f.header.frameType <;> simp only <;>
    (try split) <;> (try split) <;> rfl

/-- What the rest of the system remembers of a session: the events emitted before
the current call, how many of them are still queued, and the accepted work. -/
structure History where
  log : List Event
  seen : Nat
  sends : List (UInt32 × List UInt8)
  reports : List UInt32

namespace Session

def endpoint (s : Session) (h : History) : Endpoint :=
  { ids := s.ids
    streams := fun id => s.streams[id]?
    queue := s.outbound.map WireFrame.message
    acceptedRemote := s.acceptedRemote
    goawaySent := s.goawaySent
    peerGoaway := s.peerGoaway
    closed := s.closed
    log := h.log ++ s.events.drop h.seen
    sends := h.sends
    reports := h.reports }

structure Sound (s : Session) : Prop where
  keyed : ∀ (id : UInt32) (state : StreamState), s.streams[id]? = some state → state.handle.wireId = id
  closed_streams : s.closed = true → ∀ id : UInt32, s.streams[id]? = none
  closed_pings : s.closed = true → s.pings.toList = []
  ids : s.ids.Valid

/-- A sound session in the middle of a call that started with `h.seen` events. -/
structure Ready (h : History) (s : Session) : Prop where
  sound : s.Sound
  seen_le : h.seen ≤ s.events.length

def Moves (h : History) (s s' : Session) : Prop :=
  Ready h s' ∧ ReflTransGen Endpoint.Local (s.endpoint h) (s'.endpoint h)

variable {h : History} {s s' s'' : Session}

theorem Moves.refl (hs : Ready h s) : Moves h s s := ⟨hs, .refl⟩

theorem Moves.trans (h₁ : Moves h s s') (h₂ : Moves h s' s'') : Moves h s s'' :=
  ⟨h₂.1, h₁.2.trans h₂.2⟩

theorem Ready.of_same (hs : Ready h s) (hst : s'.streams = s.streams) (hc : s'.closed = s.closed)
    (hp : s'.pings = s.pings) (hi : s'.ids = s.ids) (hl : s.events.length ≤ s'.events.length) :
    Ready h s' :=
  ⟨⟨hst ▸ hs.sound.keyed, hst ▸ hc ▸ hs.sound.closed_streams, hp ▸ hc ▸ hs.sound.closed_pings,
    hi ▸ hs.sound.ids⟩, hs.seen_le.trans hl⟩

theorem endpoint_emit (hs : Ready h s) (events : List Event) :
    ({ s with events := s.events ++ events } : Session).endpoint h =
      { s.endpoint h with log := (s.endpoint h).log ++ events } := by
  simp [endpoint, List.drop_append_of_le_length hs.seen_le]

theorem Ready.emit (hs : Ready h s) (events : List Event) :
    Ready h { s with events := s.events ++ events } :=
  hs.of_same rfl rfl rfl rfl (by simp)

def pushed (s : Session) (output : WireFrame) (lease : Reservation) (resources : Resources) :
    Session :=
  { s with resources, outbound := s.outbound ++ [{ output with reservation := some lease }] }

/-- A frame for which the outbound budget has room. -/
structure Fits (s : Session) (kind : FrameType) (id : UInt32) (payload : List UInt8)
    (f : WireFrame) (lease : Reservation) (resources : Resources) : Prop where
  kind : f.header.frameType = kind
  own : f.header.streamId = id
  payload : f.payload = payload
  room : s.resources.outbound (f.payload.length + queuedOverhead) = some (lease, resources)

theorem queue_fits (s : Session) {kind : FrameType} {id : UInt32} {payload : List UInt8}
    {f : WireFrame} (hk : f.header.frameType = kind) (hi : f.header.streamId = id)
    (hp : f.payload = payload) :
    s.resources.outbound (payload.length + queuedOverhead) = none ∧
      s.queue f = (.error .capacity, s) ∨
    ∃ lease resources, s.Fits kind id payload f lease resources ∧
      s.queue f = (.ok (), s.pushed f lease resources) := by
  unfold queue
  split
  case h_1 full => exact .inl ⟨hp ▸ full, rfl⟩
  case h_2 room => exact .inr ⟨_, _, ⟨hk, hi, hp, room⟩, rfl⟩

theorem endpoint_pushed (s : Session) (h : History) (output : WireFrame)
    (lease : Reservation) (resources : Resources) :
    (s.pushed output lease resources).endpoint h = (s.endpoint h).push output.message := by
  simp [pushed, endpoint, Endpoint.push]
  rfl

theorem Ready.pushed (hs : Ready h s) (output : WireFrame) (lease : Reservation)
    (resources : Resources) : Ready h (s.pushed output lease resources) :=
  hs.of_same rfl rfl rfl rfl le_rfl

theorem retained_eq (id : UInt32) (f : WireFrame) :
    retained id f = (f.message.id != id || f.message.isOpen) := by
  rw [f.message_id, f.message_isOpen, retained]

theorem map_filter_retained (id : UInt32) (frames : List WireFrame) :
    (frames.filter (retained id)).map WireFrame.message =
      Endpoint.purge id (frames.map WireFrame.message) := by
  rw [Endpoint.purge, List.filter_map]
  congr 1
  exact List.filter_congr fun f _ => retained_eq id f

theorem endpoint_terminate (hs : Ready h s) {id : UInt32} {state : StreamState}
    (hstream : s.streams[id]? = some state) (outcome : StreamOutcome) :
    (s.terminate id outcome).endpoint h = (s.endpoint h).drop id state outcome := by
  have he := FiniteMap.lookup_erase s.streams id
  simp only [terminate, hstream, endpoint, Endpoint.drop, map_filter_retained, he,
    List.drop_append_of_le_length hs.seen_le, List.append_assoc]

theorem Sound.of_sub (hs : s.Sound) (hc : s'.closed = s.closed) (hp : s'.pings = s.pings)
    (hi : s'.ids.Valid) (hsub : ∀ (id : UInt32) (state : StreamState), s'.streams[id]? = some state →
      ∃ old, s.streams[id]? = some old ∧ state.handle = old.handle) : s'.Sound := by
  refine ⟨fun id state hst => ?_, fun hcl id => ?_, fun hcl => ?_, hi⟩
  · obtain ⟨old, ho, he⟩ := hsub id state hst
    rw [he]
    exact hs.keyed id old ho
  · cases hst : s'.streams[id]? with
    | none => rfl
    | some state =>
      obtain ⟨old, ho, _⟩ := hsub id state hst
      rw [hs.closed_streams (hc ▸ hcl) id] at ho
      cases ho
  · rw [hp]
    exact hs.closed_pings (hc ▸ hcl)

theorem erase_sub (streams : TreeMap UInt32 StreamState) (id : UInt32) (j : UInt32)
    (state : StreamState) (hj : (streams.erase id)[j]? = some state) :
    ∃ old, streams[j]? = some old ∧ state.handle = old.handle := by
  rw [TreeMap.getElem?_erase] at hj
  split at hj
  · cases hj
  · exact ⟨state, hj, rfl⟩

theorem insert_sub {streams : TreeMap UInt32 StreamState} {id : UInt32} {old new : StreamState}
    (ho : streams[id]? = some old) (hn : new.handle = old.handle) (j : UInt32)
    (state : StreamState) (hj : (streams.insert id new)[j]? = some state) :
    ∃ old, streams[j]? = some old ∧ state.handle = old.handle := by
  rw [TreeMap.getElem?_insert] at hj
  split at hj
  case isTrue he =>
    cases hj
    rw [Std.compare_eq_iff_eq] at he
    subst he
    exact ⟨old, ho, hn⟩
  case isFalse => exact ⟨state, hj, rfl⟩

theorem Ready.terminate (hs : Ready h s) (id : UInt32) (outcome : StreamOutcome) :
    Ready h (s.terminate id outcome) := by
  have hl := hs.seen_le
  simp only [Session.terminate]
  split
  · exact hs.of_same rfl rfl rfl rfl le_rfl
  · exact ⟨hs.sound.of_sub rfl rfl hs.sound.ids (erase_sub s.streams id), by simp; omega⟩

theorem refuse_fits (s : Session) (id : UInt32) {code : ErrorCode} (hc : code ≠ .noError) :
    s.refuse id code = (.error .capacity, s) ∨
    ∃ f lease resources, s.Fits .error id (ErrorPayload.encode ⟨⟨code, ""⟩⟩) f lease resources ∧
      s.refuse id code = (.ok (), s.pushed f lease resources) := by
  have hlen : (ErrorPayload.encode ⟨⟨code, ""⟩⟩).length ≤ maxPayloadBytes := by
    simp [ErrorPayload.encode, Diagnostic.encode_blank_length, maxPayloadBytes]
  obtain ⟨f, hf, hk, hi, hp⟩ := frame_eq .error id hlen rfl
  simp only [refuse, ErrorPayload.new_blank hc, hf]
  rcases queue_fits s hk hi hp with ⟨-, hq⟩ | ⟨lease, resources, fits, hq⟩
  · exact .inl hq
  · exact .inr ⟨f, lease, resources, fits, hq⟩

theorem Fits.message_error {id : UInt32} {code : ErrorCode} {f : WireFrame} {lease : Reservation}
    {resources : Resources} (hc : code ≠ .noError)
    (fits : s.Fits .error id (ErrorPayload.encode ⟨⟨code, ""⟩⟩) f lease resources) :
    f.message = if id = 0 then .fatal code else .stop id (peerOutcome .error code) := by
  simp only [WireFrame.message, fits.kind, fits.payload, ErrorPayload.decode_encode_blank hc,
    fits.own]
  rfl

/-- A session right after it closes, before it answers the peer. -/
def shut (s : Session) (failure : Option Failure) : Session :=
  { s with
    closed := true
    resources := releaseAll s.resources s.outbound
    outbound := []
    pings := ∅
    streams := ∅
    events := s.events ++ s.closingEvents failure }

theorem close_eq (hopen : s.closed = false) (failure : Option Failure)
    (response : Option ErrorCode) :
    s.close failure response = s.shut (failure.or s.drainFailure) ∨
    ∃ code f lease resources, response = some code ∧ code ≠ .noError ∧
      (s.shut (failure.or s.drainFailure)).Fits .error 0 (ErrorPayload.encode ⟨⟨code, ""⟩⟩)
        f lease resources ∧
      s.close failure response =
        (s.shut (failure.or s.drainFailure)).pushed f lease resources := by
  cases response with
  | none =>
    rw [close, if_neg (Bool.eq_false_iff.mp hopen)]
    exact .inl rfl
  | some code =>
    by_cases hc : code = .noError
    · rw [close, if_neg (Bool.eq_false_iff.mp hopen), hc]
      exact .inl rfl
    · have hq : s.close failure (some code) =
          ((s.shut (failure.or s.drainFailure)).refuse 0 code).2 := by
        rw [close, if_neg (Bool.eq_false_iff.mp hopen)]
        simp only [refuse, ErrorPayload.new_blank hc]
        cases frame .error 0 (ErrorPayload.encode ⟨⟨code, ""⟩⟩) <;> rfl
      rcases refuse_fits (s.shut (failure.or s.drainFailure)) 0 hc with
        hf | ⟨f, lease, resources, fits, hf⟩ <;> rw [hq, hf]
      · exact .inl rfl
      · exact .inr ⟨code, f, lease, resources, rfl, hc, fits, rfl⟩

theorem closingEvents_closing (hs : s.Sound) (h : History) (failure : Option Failure) :
    Endpoint.Closing (s.endpoint h) (failure.getD ⟨.local_, .connectionLost⟩)
      (s.closingEvents failure) := by
  constructor
  · intro id
    have hkey : ∀ e ∈ s.streams.toList, (e.2.handle.wireId == id) = decide (e.1 = id) := by
      intro e he
      have hst := TreeMap.mem_toList_iff_getElem?_eq_some.mp he
      simp [hs.keyed e.1 e.2 hst, Bool.beq_eq_decide_eq]
    have hf := FiniteMap.filter_toList_key s.streams id
    rw [closingEvents, trace_append, trace_append, trace_eq_nil (l := s.pings.toList.map _) (by
      rintro e he
      obtain ⟨p, -, rfl⟩ := List.mem_map.mp he
      rfl), trace_eq_nil (l := [_]) (by simp [Event.stream?])]
    simp only [trace, List.filter_map, List.nil_append, List.append_nil]
    rw [List.filter_congr (q := fun e => decide (e.1 = id)) (by
      intro e he
      simpa [onStream, Event.stream?] using hkey e he), hf]
    simp only [endpoint]
    cases s.streams[id]? <;> rfl
  · intro e he hn
    simp only [closingEvents, List.mem_append, List.mem_map, List.mem_singleton] at he
    rcases he with (⟨p, _, rfl⟩ | ⟨p, _, rfl⟩) | rfl
    · exact .inl ⟨_, _, _, rfl⟩
    · simp [Event.stream?] at hn
    · exact .inr ⟨_, _, rfl⟩

theorem endpoint_close (hs : Ready h s) (hopen : s.closed = false) (failure : Option Failure)
    (response : Option ErrorCode) :
    ∃ reply : Option ErrorCode, (∀ code ∈ reply, response = some code) ∧
      (s.close failure response).endpoint h =
        (s.endpoint h).shut (s.closingEvents (failure.or s.drainFailure)) reply ∧
      Ready h (s.close failure response) := by
  have hl := hs.seen_le
  have he : (s.shut (failure.or s.drainFailure)).endpoint h =
      (s.endpoint h).shut (s.closingEvents (failure.or s.drainFailure)) none := by
    simp [shut, endpoint, Endpoint.shut, List.drop_append_of_le_length hl]
  have hr : Ready h (s.shut (failure.or s.drainFailure)) :=
    ⟨⟨by simp [shut], by simp [shut], fun _ => rfl, hs.sound.ids⟩, by simp [shut]; omega⟩
  rcases close_eq hopen failure response with
    hc | ⟨code, f, lease, resources, rfl, hcode, fits, hc⟩ <;> rw [hc]
  · exact ⟨none, by simp, he, hr⟩
  · refine ⟨some code, by simp, ?_, hr.pushed _ _ _⟩
    rw [endpoint_pushed, he, fits.message_error hcode]
    rfl

end Session

end TalkSphere
