import TalkSphere.SessionLocal

/-! What a session does with one verified frame. Either the endpoint reads the
message, or the message is illegal in the present state, or a PONG answers a
probe that starts after the present time. -/

namespace TalkSphere

open Std (TreeMap)
open Relation (ReflTransGen)

namespace Session

variable {h : History} {s s' : Session}

inductive Reads (h : History) (s : Session) (m : Message) :
    Except SessionError Unit × Session → Prop
  | served {e : Endpoint} {result : Except SessionError Unit} {s' : Session}
      (hc : Endpoint.Consume m (s.endpoint h) e)
      (hl : ReflTransGen Endpoint.Local e (s'.endpoint h))
      (hr : result = .ok () ∨ result = .error .capacity) : Reads h s m (result, s')
  | violated {result : Except SessionError Unit} {s' : Session}
      (hi : (s.endpoint h).Illegal m)
      (hf : ReflTransGen Endpoint.Free (s.endpoint h) (s'.endpoint h)) : Reads h s m (result, s')
  | stale {token : Token} {started deadline : Instant} {s' : Session}
      (hp : s.pings[token]? = some (started, deadline))
      (hn : ∀ now, s.now = some now → now < started)
      (he : s'.endpoint h = s.endpoint h) : Reads h s m (.error .protocol, s')

/-- The state left behind is in order and the frame has been read, refused or found stale. -/
def Read (h : History) (s : Session) (m : Message) (out : Except SessionError Unit × Session) :
    Prop :=
  Ready h out.2 ∧ Reads h s m out

theorem Reads.rejected {m : Message} (hi : (s.endpoint h).Illegal m)
    (result : Except SessionError Unit) : Reads h s m (result, s) := .violated hi .refl

theorem failStream_cases (hs : Ready h s) {id : UInt32} {state : StreamState} (h0 : id ≠ 0)
    (hstream : s.streams[id]? = some state) (wire : ErrorCode) (hw : wire ≠ .noError)
    (code : FailureCode) :
    ∃ (result : Except SessionError Unit) (s' : Session) (reply : Option StreamOutcome),
      s.failStream id wire code = (result, s') ∧ Ready h s' ∧
      (result = .ok () ∨ result = .error .capacity) ∧
      (∀ o ∈ reply, o = peerOutcome .error wire) ∧
      s'.endpoint h = { (s.endpoint h).drop id state (.failed ⟨.local_, code⟩) with
        queue := Endpoint.purge id (s.endpoint h).queue ++ reply.toList.map (.stop id) } := by
  have hs₁ := hs.terminate id (.failed ⟨.local_, code⟩)
  have he₁ := endpoint_terminate hs hstream (.failed ⟨.local_, code⟩)
  rcases refuse_fits (s.terminate id (.failed ⟨.local_, code⟩)) id hw with
    hq | ⟨output, lease, resources, fits, hq⟩
  · refine ⟨_, _, none, hq, hs₁, .inr rfl, by simp, ?_⟩
    rw [he₁]
    simp [Endpoint.drop]
  · refine ⟨_, _, some (peerOutcome .error wire), hq, hs₁.pushed _ _ _, .inl rfl, by simp, ?_⟩
    rw [endpoint_pushed, he₁, fits.message_error hw, if_neg h0]
    rfl

theorem payload_length_le (f : WireFrame) : f.payload.length ≤ maxPayloadBytes :=
  f.payload_length ▸ f.header.payloadLen_le

theorem receiveData_reads (hs : Ready h s) {f : WireFrame} (ht : f.header.frameType = .data)
    (h0 : f.header.streamId ≠ 0) {state : StreamState}
    (hstream : s.streams[f.header.streamId]? = some state) :
    Read h s f.message (s.receiveData f.header.streamId f.payload) := by
  have hopen := hs.sound.open_of_stream hstream
  obtain ⟨result, s', reply, hq, hs', -, -, he⟩ :=
    failStream_cases hs h0 hstream .streamStateError (by decide) .streamState
  have hfail : ReflTransGen Endpoint.Free (s.endpoint h) (s'.endpoint h) := by
    rw [he]
    exact .single (.forced (.fail reply hopen hstream (by simp)))
  unfold receiveData
  simp only [hstream]
  split
  case isTrue hr =>
    rw [hq]
    refine ⟨hs', .violated ?_ hfail⟩
    simp only [WireFrame.message, ht]
    split
    · trivial
    · exact .inr ⟨state, hstream, by simpa using hr⟩
  case isFalse hr =>
  split
  case isTrue hp =>
    have hp := hp.resolve_right (not_lt.mpr (payload_length_le f))
    rw [hq]
    refine ⟨hs', .violated ?_ hfail⟩
    simp only [WireFrame.message, ht, hp, if_true]
    trivial
  case isFalse hp =>
  simp only [not_or] at hp
  have hm : f.message = .data f.header.streamId f.payload := by
    simp [WireFrame.message, ht, hp.1]
  rw [hm]
  split
  case isTrue =>
    obtain ⟨result, s', reply, hq, hs', hres, hrep, he⟩ :=
      failStream_cases hs h0 hstream .resourceLimit (by decide) .resourceLimit
    rw [hq]
    refine ⟨hs', .served (e := s'.endpoint h) ?_ .refl hres⟩
    rw [he]
    refine .overflow reply hopen hstream ⟨(by rintro ⟨⟩), (by rintro ⟨⟩)⟩ (by simp) fun o ho => ?_
    rw [hrep o ho]
    exact ⟨(by rintro ⟨⟩), (by rintro ⟨⟩)⟩
  case isFalse =>
    refine ⟨hs.emit _, .served (e := _) ?_ .refl (.inl rfl)⟩
    rw [endpoint_emit hs]
    exact .data hopen hstream (by simpa using hr)

theorem receiveEnd_reads (hs : Ready h s) {f : WireFrame} (ht : f.header.frameType = .end_)
    (h0 : f.header.streamId ≠ 0) {state : StreamState}
    (hstream : s.streams[f.header.streamId]? = some state) :
    Read h s f.message (s.receiveEnd f.header.streamId f.payload) := by
  have hopen := hs.sound.open_of_stream hstream
  unfold receiveEnd
  simp only [hstream]
  split
  case isTrue hp =>
    obtain ⟨result, s', reply, hq, hs', -, -, he⟩ :=
      failStream_cases hs h0 hstream .streamStateError (by decide) .streamState
    rw [hq]
    refine ⟨hs', .violated ?_ ?_⟩
    · simp only [WireFrame.message, ht]
      split
      case isTrue hn => exact .inr ⟨state, hstream, by simpa [hn] using hp⟩
      case isFalse => trivial
    · rw [he]
      exact .single (.forced (.fail reply hopen hstream (by simp)))
  case isFalse hp =>
    simp only [not_or, not_not, Bool.not_eq_true', Bool.not_eq_false] at hp
    have hm : f.message = .end_ f.header.streamId := by simp [WireFrame.message, ht, hp.1]
    rw [hm]
    have hl := hs.seen_le
    have hs₁ : Ready h { s with
        streams := s.streams.insert f.header.streamId { state with remoteOpen := false }
        events := s.events ++ [Event.remoteEnd state.handle] } :=
      ⟨hs.sound.of_sub rfl rfl hs.sound.ids (insert_sub hstream rfl), by simp; omega⟩
    have hmv := complete_moves hs₁ f.header.streamId
    have hi := FiniteMap.lookup_insert s.streams f.header.streamId { state with remoteOpen := false }
    have hstep := Endpoint.Consume.end_ (e := s.endpoint h) hopen hstream hp.2
    refine ⟨hmv.1, .served hstep ?_ (.inl rfl)⟩
    simpa only [endpoint, hi, List.drop_append_of_le_length hl, List.append_assoc] using hmv.2

theorem refuse_reads (hs : Ready h s) (hopen : s.closed = false) {id : UInt32} {ids : StreamIds}
    (h0 : id ≠ 0) (hid : s.ids.accept id = (.ok (), ids)) {code : ErrorCode} (hc : code ≠ .noError)
    (hp : (peerOutcome .error code).Plain ∨ (peerOutcome .error code = .failed ⟨.peer, .refused⟩ ∧
      (s.goawaySent = true ∨ s.peerGoaway.isSome))) :
    Read h s (.open_ id) (({ s with ids } : Session).refuse id code) := by
  have hs₁ : Ready h { s with ids } :=
    hs.works (I := fun _ => True) (.single trivial (.accepted hid))
  rcases refuse_fits { s with ids } id hc with hq | ⟨output, lease, resources, fits, hq⟩ <;> rw [hq]
  · have hstep := Endpoint.Consume.refused (e := s.endpoint h) none hopen hid (by simp)
    refine ⟨hs₁, .served hstep ?_ (.inr rfl)⟩
    simp only [Option.toList_none, List.map_nil, List.append_nil]
    exact .refl
  · have hm := fits.message_error hc
    rw [if_neg h0] at hm
    have hstep := Endpoint.Consume.refused (e := s.endpoint h) (some (peerOutcome .error code))
      hopen hid (by rintro o ⟨⟩; exact hp)
    refine ⟨hs₁.pushed _ _ _, .served hstep ?_ (.inl rfl)⟩
    rw [endpoint_pushed, hm]
    exact .refl

theorem receiveOpen_reads (hs : Ready h s) (hopen : s.closed = false) {id : UInt32} (h0 : id ≠ 0)
    (payload : List UInt8) (registry : Registry) :
    Read h s (.open_ id) (s.receiveOpen id payload registry) := by
  unfold receiveOpen
  split
  case h_1 e ids hid =>
    refine ⟨hs, .rejected ?_ _⟩
    intro hn
    have hn : s.ids.nextRemote = some id := hn
    simp [StreamIds.accept, hn] at hid
  case h_2 ids hid =>
  simp only
  split
  case isTrue hd =>
    exact refuse_reads hs hopen h0 hid (by decide) (.inr ⟨rfl, by simpa using hd⟩)
  case isFalse hd =>
  simp only [Bool.or_eq_true, not_or, Bool.not_eq_true, Option.isSome_eq_false_iff,
    Option.isNone_iff_eq_none] at hd
  split
  case isTrue => exact refuse_reads hs hopen h0 hid (by decide) (.inl ⟨nofun, nofun⟩)
  case isFalse =>
  split
  case h_1 => exact refuse_reads hs hopen h0 hid (by decide) (.inl ⟨nofun, nofun⟩)
  case h_2 selection hsel =>
  split
  case h_1 => exact refuse_reads hs hopen h0 hid (by decide) (.inl ⟨nofun, nofun⟩)
  case h_2 owner ho =>
    have hv := hs.sound.ids.accept hid
    obtain ⟨hn, hids⟩ := StreamIds.accept_ok hid
    obtain ⟨hpar, -, -⟩ := StreamIds.following_eq_some hs.sound.ids.remote_parity
      (hs.sound.ids.next_remote ▸ hn)
    have hrem : ids.isLocal id = false := by
      rw [hids]
      exact (StreamIds.ofParity_not.mp hpar).2
    simp only [add_eq _ h0, hrem, Bool.false_eq_true, if_false]
    have hsound := hs.sound.enrolled hopen hv ⟨s.handle.id, owner, id, h0⟩
      ⟨selection.id, selection.version⟩
    have hr : Ready h (({ s with ids } : Session).enrolled ⟨s.handle.id, owner, id, h0⟩
        ⟨selection.id, selection.version⟩) :=
      ⟨hsound, hs.seen_le.trans (by simp [enrolled])⟩
    refine ⟨hr.of_same rfl rfl rfl rfl le_rfl, .served (e := _) ?_ .refl (.inl rfl)⟩
    have hstep := Endpoint.Consume.admitted (e := s.endpoint h) s.context
      ⟨s.handle.id, owner, id, h0⟩ ⟨selection.id, selection.version⟩ hopen hd.1 hd.2 hid rfl
    rw [← endpoint_enrolled hs ids ⟨s.handle.id, owner, id, h0⟩] at hstep
    exact hstep

theorem receivePing_reads (hs : Ready h s) (hopen : s.closed = false) {f : WireFrame}
    (ht : f.header.frameType = .ping ∨ f.header.frameType = .pong) :
    Read h s f.message (s.receivePing f.header.frameType f.payload) := by
  unfold receivePing
  split
  case h_1 hd =>
    refine ⟨hs, .rejected ?_ _⟩
    have hl : f.payload.length ≠ 8 := fun hl => by simp [PingToken.decode, hl] at hd
    rcases ht with ht | ht <;> simp only [WireFrame.message, ht, hl, if_false] <;> trivial
  case h_2 token hd =>
    have hl : f.payload.length = 8 := by
      by_contra hl
      simp [PingToken.decode, hl] at hd
    have hm : f.message = .probe := by
      rcases ht with ht | ht <;> simp [WireFrame.message, ht, hl]
    rw [hm]
    split
    case isTrue hk =>
      obtain ⟨g, hg, gt, gi, gp⟩ := frame_eq .pong 0
        (show token.toList.length ≤ _ by simp [maxPayloadBytes]) rfl
      have hgm : g.message = .probe := by simp [WireFrame.message, gt, gp]
      simp only [hg]
      rcases queue_fits s gt gi gp with ⟨-, hq⟩ | ⟨lease, resources, -, hq⟩ <;> rw [hq]
      · exact ⟨hs, .served (.probe hopen) .refl (.inr rfl)⟩
      · refine ⟨hs.pushed g lease resources, .served (.probe hopen) (.single ?_) (.inl rfl)⟩
        rw [endpoint_pushed, hgm]
        exact .probe hopen
    case isFalse =>
    split
    case h_1 => exact ⟨hs, .served (.probe hopen) .refl (.inl rfl)⟩
    case h_2 started deadline hp =>
      have hs₁ : Ready h { s with pings := s.pings.erase token } :=
        ⟨⟨hs.sound.keyed, hs.sound.closed_streams, by simp [hopen], hs.sound.ids⟩, hs.seen_le⟩
      simp only
      split
      case h_1 hn =>
        refine ⟨hs₁, .stale hp ?_ rfl⟩
        intro now hnow
        simpa [hnow, Instant.checkedDurationSince] using hn
      case h_2 elapsed hn =>
        refine ⟨hs₁.emit _, .served (.probe hopen) (.single ?_) (.inl rfl)⟩
        have he := endpoint_emit hs₁ [.pingFinished s.handle.id token (.ok elapsed)]
        simp only at he
        rw [he]
        exact .note (e := s.endpoint h) _ hopen (by simp)

theorem foldl_terminate (hs : Ready h s) (outcome : StreamOutcome) {ids : List UInt32}
    (hn : ids.Nodup) (ha : ∀ id ∈ ids, (s.streams[id]?).isSome) :
    Ready h (ids.foldl (fun s id => s.terminate id outcome) s) ∧
    ∃ events : List Event,
      (ids.foldl (fun s id => s.terminate id outcome) s).endpoint h = { s.endpoint h with
        streams := fun id => if id ∈ ids then none else s.streams[id]?
        queue := (s.endpoint h).queue.filter fun m => m.id ∉ ids || m.isOpen
        log := (s.endpoint h).log ++ events } ∧
      (∀ id, trace id events = if id ∈ ids then
        (s.streams[id]?.map fun state => .streamClosed state.handle outcome).toList else []) ∧
      ∀ ev ∈ events, ev.stream?.isSome := by
  induction ids generalizing s with
  | nil =>
    refine ⟨hs, [], ?_, by simp [trace], by simp⟩
    simp only [List.foldl_nil, List.not_mem_nil, if_false, not_false_eq_true, decide_true,
      Bool.true_or, List.append_nil, List.filter_eq_self.mpr fun _ _ => rfl]
    rfl
  | cons id ids ih =>
    obtain ⟨hnot, hn⟩ := List.nodup_cons.mp hn
    obtain ⟨state, hstream⟩ := Option.isSome_iff_exists.mp (ha id (by simp))
    have hs₁ := hs.terminate id outcome
    have he₁ := endpoint_terminate hs hstream outcome
    have hlook : ∀ j : UInt32, (s.terminate id outcome).streams[j]? =
        if j = id then none else s.streams[j]? := by
      intro j
      have hj := congrArg (fun e => e.streams j) he₁
      simpa [endpoint, Endpoint.drop, Function.update_apply] using hj
    have hne : ∀ j ∈ ids, j ≠ id := fun j hj he => hnot (he ▸ hj)
    obtain ⟨hr, events, he, htrace, hsome⟩ := ih hs₁ hn (by
      intro j hj
      rw [hlook, if_neg (hne j hj)]
      exact ha j (by simp [hj]))
    refine ⟨hr, .streamClosed state.handle outcome :: events, ?_, ?_, ?_⟩
    · rw [List.foldl_cons, he, he₁]
      simp only [Endpoint.drop, Endpoint.purge, List.filter_filter, List.append_assoc,
        List.singleton_append, hlook, List.mem_cons]
      congr 1
      · funext j
        by_cases hj : j = id <;> simp [hj]
      · refine List.filter_congr fun m _ => ?_
        by_cases hm : m.id = id <;> simp [hm, hnot]
    · intro j
      have hk := hs.sound.keyed id state hstream
      have hon : onStream j (.streamClosed state.handle outcome) = decide (j = id) := by
        simp [onStream, Event.stream?, hk, Bool.beq_eq_decide_eq, eq_comm]
      have htj := htrace j
      rw [hlook] at htj
      simp only [trace] at htj ⊢
      by_cases hj : j = id
      · subst hj
        simp only [hnot, if_false] at htj
        simp [hon, hstream, htj]
      · simp [hon, hj, htj]
    · simpa [Event.stream?] using hsome

theorem refusedBy_nodup (s : Session) (last : UInt32) : (s.refusedBy last).Nodup :=
  TreeMap.nodup_keys.sublist List.filter_sublist

theorem mem_refusedBy {last id : UInt32} : id ∈ s.refusedBy last ↔
    (s.streams[id]?).isSome ∧ s.ids.isLocal id = true ∧ last < id := by
  simp [refusedBy]

theorem receiveGoaway_reads (hs : Ready h s) (hopen : s.closed = false) {f : WireFrame}
    (ht : f.header.frameType = .goAway) :
    Read h s f.message (s.receiveGoaway f.payload) := by
  unfold receiveGoaway
  split
  case h_1 e hd =>
    refine ⟨hs, .rejected ?_ _⟩
    simp only [WireFrame.message, ht, hd]
    trivial
  case h_2 goaway hd =>
  have hm : f.message = .goAway goaway.lastAcceptedRemoteStreamId goaway.code := by
    simp only [WireFrame.message, ht, hd]
  rw [hm]
  generalize goaway.lastAcceptedRemoteStreamId = last
  simp only
  split
  case isTrue hv =>
    refine ⟨hs, .rejected ?_ _⟩
    simpa [Endpoint.Illegal, endpoint, Option.any_eq_true] using hv
  case isFalse hv =>
  generalize hq : (if goaway.code ≠ .noError then
    ({ s with peerGoaway := some last,
              drainFailure := some ⟨.peer, failureCode goaway.code⟩ } : Session)
    else { s with peerGoaway := some last }) = s₁
  obtain ⟨hs₁, he₁, hopen₁, hst⟩ : Ready h s₁ ∧
      s₁.endpoint h = { s.endpoint h with peerGoaway := some last } ∧ s₁.closed = false ∧
      s₁.streams = s.streams ∧ s₁.ids = s.ids := by
    subst hq
    split <;> exact ⟨hs.of_same rfl rfl rfl rfl le_rfl, rfl, hopen, rfl, rfl⟩
  have hmem : ∀ id, id ∈ s₁.refusedBy last ↔
      (s.streams[id]?).isSome ∧ s.ids.isLocal id = true ∧ last < id := by
    intro id
    rw [mem_refusedBy, hst.1, hst.2]
  obtain ⟨hs₂, events, he₂, htrace, hsome⟩ := foldl_terminate hs₁ (.failed ⟨.peer, .refused⟩)
    (refusedBy_nodup s₁ last) (fun id hid => (mem_refusedBy.mp hid).1)
  generalize (s₁.refusedBy last).foldl
    (fun s id => s.terminate id (.failed ⟨.peer, .refused⟩)) s₁ = s₂ at hs₂ he₂ ⊢
  have hopen₂ : s₂.closed = false := (congrArg Endpoint.closed he₂).trans hopen₁
  have hstep := @Endpoint.Consume.goAway (s.endpoint h) last goaway.code events hopen (fun id => by
      rw [htrace id, hst.1]
      simp only [hmem, endpoint]
      by_cases hl : s.ids.isLocal id = true ∧ last < id <;>
        cases s.streams[id]? <;> simp [hl]) hsome
  have he : s₂.endpoint h = { s.endpoint h with
      peerGoaway := some last
      streams := fun id => if s.ids.isLocal id ∧ last < id then none else (s.endpoint h).streams id
      queue := (s.endpoint h).queue.filter fun m =>
        !(((s.endpoint h).streams m.id).isSome && s.ids.isLocal m.id && last < m.id) || m.isOpen
      log := (s.endpoint h).log ++ events } := by
    rw [he₂, he₁]
    simp only [hmem, hst.1, endpoint]
    congr 1
    · funext id
      by_cases hl : s.ids.isLocal id = true ∧ last < id <;>
        cases s.streams[id]? <;> simp [hl]
    · refine List.filter_congr fun m _ => ?_
      by_cases hl : last < m.id <;> cases s.streams[m.id]? <;> cases s.ids.isLocal m.id <;>
        simp [hl, -UInt32.not_lt, -decide_not]
  replace hstep : Endpoint.Consume (.goAway last goaway.code) (s.endpoint h) (s₂.endpoint h) := by
    rw [he]
    exact hstep
  rcases drain_served hopen₂ .normal with hd | ⟨s₃, hd, done⟩ <;> rw [hd]
  · exact ⟨hs₂, .served hstep .refl (.inr rfl)⟩
  · have hm := done.moves hs₂ (by rintro _ _ _ ⟨⟩)
    exact ⟨hm.1, .served hstep hm.2 (.inl rfl)⟩

theorem receiveStop_reads (hs : Ready h s) {f : WireFrame}
    (ht : f.header.frameType = .cancel ∨ f.header.frameType = .error)
    (h0 : f.header.streamId ≠ 0) {state : StreamState}
    (hstream : s.streams[f.header.streamId]? = some state) {d : ErrorPayload}
    (hd : ErrorPayload.decode f.payload = .ok d) :
    Reads h s f.message
      (.ok (), s.terminate f.header.streamId (peerOutcome f.header.frameType d.code)) := by
  have hm : f.message = .stop f.header.streamId (peerOutcome f.header.frameType d.code) := by
    rcases ht with ht | ht <;> simp only [WireFrame.message, ht, hd, if_neg h0]
  have hne : ∀ kind code, peerOutcome kind code ≠ .completed := by
    intro kind code
    unfold peerOutcome
    split <;> simp
  rw [hm]
  refine .served (e := _) ?_ .refl (.inl rfl)
  rw [endpoint_terminate hs hstream]
  exact .stop (hs.sound.open_of_stream hstream) hstream (hne _ _)

theorem illegal_of_not_created {f : WireFrame} (h0 : f.header.streamId ≠ 0)
    (ho : f.header.frameType ≠ .open_) (hw : s.ids.wasCreated f.header.streamId = false) :
    (s.endpoint h).Illegal f.message := by
  have hv := f.header.streamId_valid
  unfold WireFrame.message
  cases ht : f.header.frameType <;> simp only [ht, FrameType.validStreamId] at hv ho ⊢ <;>
    (try split) <;> (try split) <;>
    first
      | trivial
      | exact absurd rfl ho
      | exact absurd (by simpa using hv) h0
      | exact absurd (by assumption) h0
      | exact .inl hw

theorem receiveFatal_reads (hs : Ready h s) (hopen : s.closed = false) {f : WireFrame}
    (ht : f.header.frameType = .error) (h0 : f.header.streamId = 0) :
    Read h s f.message (match ErrorPayload.decode f.payload with
      | .error _ => (.error .protocol, s)
      | .ok error => (.ok (), s.close (some ⟨.peer, failureCode error.code⟩) none)) := by
  split
  case h_1 hd =>
    refine ⟨hs, .rejected ?_ _⟩
    simp only [WireFrame.message, ht, hd]
    trivial
  case h_2 d hd =>
    have hm : f.message = .fatal d.code := by
      simp only [WireFrame.message, ht, hd, h0, if_true]
    obtain ⟨reply, hreply, he, hready⟩ :=
      endpoint_close hs hopen (some ⟨.peer, failureCode d.code⟩) none
    have hnone : reply = none := by
      cases reply with
      | none => rfl
      | some code => exact absurd (hreply code rfl) (by simp)
    refine ⟨hready, .served (e := _) ?_ .refl (.inl rfl)⟩
    rw [hm, he, hnone]
    exact .fatal hopen
      (closingEvents_closing hs.sound h (some ⟨.peer, failureCode d.code⟩))

theorem receiveParts_reads (hs : Ready h s) (hopen : s.closed = false) (f : WireFrame)
    (registry : Registry) : Read h s f.message
      (s.receiveParts f.header.frameType f.header.streamId f.payload registry) := by
  have hv := f.header.streamId_valid
  unfold receiveParts
  by_cases hgo : f.header.frameType = .goAway ∧ f.header.streamId = 0
  · rw [if_pos hgo]
    exact receiveGoaway_reads hs hopen hgo.1
  rw [if_neg hgo]
  by_cases hping : (f.header.frameType = .ping ∨ f.header.frameType = .pong) ∧ f.header.streamId = 0
  · rw [if_pos hping]
    exact receivePing_reads hs hopen hping.1
  rw [if_neg hping]
  by_cases herr : f.header.frameType = .error ∧ f.header.streamId = 0
  · rw [if_pos herr]
    exact receiveFatal_reads hs hopen herr.1 herr.2
  rw [if_neg herr]
  by_cases hcr : f.header.frameType ≠ .open_ ∧ f.header.streamId ≠ 0 ∧
      !s.ids.wasCreated f.header.streamId
  · rw [if_pos hcr]
    exact ⟨hs, .rejected (illegal_of_not_created hcr.2.1 hcr.1 (by simpa using hcr.2.2)) _⟩
  rw [if_neg hcr]
  by_cases hact : f.header.frameType ≠ .open_ ∧ f.header.streamId ≠ 0 ∧
      !s.streams.contains f.header.streamId
  · rw [if_pos hact]
    obtain ⟨ho, h0, hn⟩ := hact
    simp only [ho, h0, ne_eq, not_false_eq_true, true_and, Bool.not_eq_true',
      Bool.not_eq_false] at hcr
    rw [TreeMap.contains_eq_isSome_getElem?] at hn
    simp only [Bool.not_eq_true', Option.isSome_eq_false_iff, Option.isNone_iff_eq_none] at hn
    refine ⟨hs, .served (.ignored hopen ?_ ?_ ?_ ?_) .refl (.inl rfl)⟩ <;>
      simp only [f.message_id, f.message_isOpen]
    · exact h0
    · simpa using ho
    · exact hcr
    · exact hn
  rw [if_neg hact]
  have hstream : f.header.frameType ≠ .open_ → f.header.streamId ≠ 0 →
      ∃ state, s.streams[f.header.streamId]? = some state := by
    intro ho h0
    simp only [ho, h0, ne_eq, not_false_eq_true, true_and, Bool.not_eq_true', Bool.not_eq_false,
      TreeMap.contains_eq_isSome_getElem?, Option.isSome_iff_exists] at hact
    exact hact
  by_cases hstop : (f.header.frameType = .cancel ∨ f.header.frameType = .error) ∧
      f.header.streamId ≠ 0
  · rw [if_pos hstop]
    have ho : f.header.frameType ≠ .open_ := by
      rcases hstop.1 with hk | hk <;> simp [hk]
    obtain ⟨state, hst⟩ := hstream ho hstop.2
    split
    case h_1 hd =>
      refine ⟨hs, .rejected ?_ _⟩
      rcases hstop.1 with hk | hk <;> simp only [WireFrame.message, hk, hd] <;> trivial
    case h_2 d hd => exact ⟨hs.terminate _ _, receiveStop_reads hs hstop.1 hstop.2 hst hd⟩
  rw [if_neg hstop]
  by_cases hend : f.header.frameType = .end_
  · rw [if_pos hend]
    have h0 : f.header.streamId ≠ 0 := by simpa [hend, FrameType.validStreamId] using hv
    obtain ⟨state, hst⟩ := hstream (by simp [hend]) h0
    exact receiveEnd_reads hs hend h0 hst
  rw [if_neg hend]
  by_cases hdata : f.header.frameType = .data
  · rw [if_pos hdata]
    have h0 : f.header.streamId ≠ 0 := by simpa [hdata, FrameType.validStreamId] using hv
    obtain ⟨state, hst⟩ := hstream (by simp [hdata]) h0
    exact receiveData_reads hs hdata h0 hst
  rw [if_neg hdata]
  by_cases hk : f.header.frameType ≠ .open_
  · rw [if_pos hk]
    refine ⟨hs, .rejected ?_ _⟩
    have hz : f.header.streamId = 0 ∨ f.header.streamId ≠ 0 := em _
    cases ht : f.header.frameType with
    | hello | auth => simp only [WireFrame.message, ht]; trivial
    | open_ => exact absurd ht hk
    | data => exact absurd ht hdata
    | end_ => exact absurd ht hend
    | cancel => exact absurd ⟨.inl ht, by simpa [ht, FrameType.validStreamId] using hv⟩ hstop
    | error => exact hz.elim (fun h0 => absurd ⟨ht, h0⟩ herr) fun h0 => absurd ⟨.inr ht, h0⟩ hstop
    | goAway => exact absurd ⟨ht, by simpa [ht, FrameType.validStreamId] using hv⟩ hgo
    | ping => exact absurd ⟨.inl ht, by simpa [ht, FrameType.validStreamId] using hv⟩ hping
    | pong => exact absurd ⟨.inr ht, by simpa [ht, FrameType.validStreamId] using hv⟩ hping
  · rw [if_neg hk]
    simp only [ne_eq, not_not] at hk
    have h0 : f.header.streamId ≠ 0 := by simpa [hk, FrameType.validStreamId] using hv
    have hm : f.message = .open_ f.header.streamId := by simp [WireFrame.message, hk]
    rw [hm]
    exact receiveOpen_reads hs hopen h0 f.payload registry

theorem receive_reads (hs : Ready h s) (hopen : s.closed = false) (f : VerifiedFrame)
    (registry : Registry) (now : Instant) :
    Ready h (s.receive f registry now).2 ∧
    (((s.receive f registry now).1 = .error .capacity ∧
        (s.receive f registry now).2.closed = true ∧ Moves h s (s.receive f registry now).2) ∨
      ∃ result s', Reads h (s.tick now) f.wire.message (result, s') ∧
        (s.receive f registry now).1 = result ∧
        Moves h s' (s.receive f registry now).2 ∧
        (result = .ok () → (s.receive f registry now).2 = s')) := by
  have hm := tick_moves hs now
  have hparts := receiveParts_reads hm.1 (s := s.tick now) hopen f.wire registry
  have hd := s.receive_dispatched f registry now
  generalize s.receive f registry now = out at hd ⊢
  cases hd with
  | late ceased => exact absurd (ceased.symm.trans hopen) (by rintro ⟨⟩)
  | crowded =>
    have hcl := close_moves hm.1 ⟨.local_, .resourceLimit⟩ none ⟨nofun, nofun⟩ (by simp)
    exact ⟨hcl.1, .inl ⟨rfl, (close_keeps _ _ _).1, hm.trans hcl⟩⟩
  | failed live room cause parts =>
    rw [parts] at hparts
    rcases cause with ⟨rfl, rfl⟩ | ⟨rfl, rfl⟩
    · have hcl := close_moves hparts.1 ⟨.local_, .resourceLimit⟩ (some .resourceLimit)
        ⟨nofun, nofun⟩ (by rintro c ⟨⟩; exact ⟨nofun, nofun⟩)
      exact ⟨hcl.1, .inr ⟨_, _, hparts.2, rfl, hcl, nofun⟩⟩
    · have hcl := close_moves hparts.1 ⟨.local_, .protocolViolation⟩ (some .protocolError)
        ⟨nofun, nofun⟩ (by rintro c ⟨⟩; exact ⟨nofun, nofun⟩)
      exact ⟨hcl.1, .inr ⟨_, _, hparts.2, rfl, hcl, nofun⟩⟩
  | served live room parts =>
    rw [parts] at hparts
    exact ⟨hparts.1, .inr ⟨_, _, hparts.2, rfl, .refl hparts.1, fun _ => rfl⟩⟩

theorem Local.free {e e' : Endpoint} (hl : ReflTransGen Endpoint.Local e e') :
    ReflTransGen Endpoint.Free e e' := hl.lift id fun _ _ => .own

theorem Reads.free {m : Message} {out : Except SessionError Unit × Session}
    (hr : Reads h s m out) : ReflTransGen Endpoint.Free (s.endpoint h) (out.2.endpoint h) := by
  cases hr with
  | served hc hl => exact .head (.read hc) (Local.free hl)
  | violated _ hf => exact hf
  | stale _ _ he => rw [he]

theorem receive_free (hs : Ready h s) (f : VerifiedFrame) (registry : Registry) (now : Instant) :
    Ready h (s.receive f registry now).2 ∧
      ReflTransGen Endpoint.Free (s.endpoint h) ((s.receive f registry now).2.endpoint h) := by
  by_cases hc : s.closed = true
  · rw [receive, if_pos hc]
    exact ⟨hs, .refl⟩
  · obtain ⟨hr, ⟨-, -, hm⟩ | ⟨result, s', hreads, -, hm, -⟩⟩ :=
      receive_reads hs (Bool.eq_false_iff.mpr hc) f registry now
    · exact ⟨hr, Local.free hm.2⟩
    · exact ⟨hr, (Local.free (tick_moves hs now).2).trans (hreads.free.trans (Local.free hm.2))⟩

end Session

end TalkSphere
