import TalkSphere.SessionEvents

/-! Two sessions that differ only in unread events. Reading a frame depends on the
unread events through their number and through the bytes buffered for one stream. -/

namespace TalkSphere

namespace Session

def Twin (seen : Event → Bool) (s t : Session) : Prop :=
  ∃ es, t = { s with events := es } ∧ es.filter seen = s.events.filter seen

def Agree {ρ : Type} (seen : Event → Bool) (x y : ρ × Session) : Prop :=
  x.1 = y.1 ∧ Twin seen x.2 y.2

variable {seen : Event → Bool} {s t : Session}

theorem tick_twin (h : Twin seen s t) (now : Instant) : Twin seen (s.tick now) (t.tick now) := by
  obtain ⟨es, rfl, he⟩ := h
  exact ⟨_, rfl, by simp [tick, he]⟩

theorem queue_agree (h : Twin seen s t) (output : WireFrame) :
    Agree seen (s.queue output) (t.queue output) := by
  obtain ⟨es, rfl, he⟩ := h
  unfold queue
  cases s.resources.outbound (output.payload.length + queuedOverhead) with
  | none => exact ⟨rfl, es, rfl, he⟩
  | some lease => exact ⟨rfl, es, rfl, he⟩

theorem refuse_agree (h : Twin seen s t) (id : UInt32) (code : ErrorCode) :
    Agree seen (s.refuse id code) (t.refuse id code) := by
  unfold refuse
  split
  case h_1 => exact ⟨rfl, h⟩
  case h_2 =>
  split
  case h_1 => exact ⟨rfl, h⟩
  case h_2 output _ => exact queue_agree h output

theorem terminate_twin (h : Twin seen s t) (id : UInt32) (outcome : StreamOutcome) :
    Twin seen (s.terminate id outcome) (t.terminate id outcome) := by
  obtain ⟨es, rfl, he⟩ := h
  simp only [terminate]
  split
  case h_1 => exact ⟨es, rfl, he⟩
  case h_2 state _ => exact ⟨_, rfl, by simp [he]⟩

theorem foldl_terminate_twin (h : Twin seen s t) (outcome : StreamOutcome) (ids : List UInt32) :
    Twin seen (ids.foldl (fun s id => s.terminate id outcome) s)
      (ids.foldl (fun s id => s.terminate id outcome) t) := by
  induction ids generalizing s t with
  | nil => exact h
  | cons id ids ih => exact ih (terminate_twin h id outcome)

theorem failStream_agree (h : Twin seen s t) (id : UInt32) (wire : ErrorCode)
    (code : FailureCode) : Agree seen (s.failStream id wire code) (t.failStream id wire code) :=
  refuse_agree (terminate_twin h id _) id wire

theorem complete_twin (h : Twin seen s t) (id : UInt32) :
    Twin seen (s.complete id) (t.complete id) := by
  obtain ⟨es, rfl, he⟩ := h
  simp only [complete]
  split
  case h_1 => exact ⟨es, rfl, he⟩
  case h_2 state _ =>
  split
  case isTrue => exact ⟨_, rfl, by simp [he]⟩
  case isFalse => exact ⟨es, rfl, he⟩

theorem drain_agree (h : Twin seen s t) (reason : ShutdownReason) :
    Agree seen (s.drain reason) (t.drain reason) := by
  have hq := queue_agree h
  obtain ⟨es, rfl, he⟩ := h
  simp only [drain]
  split
  case isTrue => exact ⟨rfl, es, rfl, he⟩
  case isFalse =>
  split
  case isTrue => exact ⟨rfl, es, rfl, he⟩
  case isFalse =>
  split
  case h_1 => exact ⟨rfl, es, rfl, he⟩
  case h_2 =>
  split
  case h_1 => exact ⟨rfl, es, rfl, he⟩
  case h_2 output _ =>
  obtain ⟨hr, es', heq, he'⟩ := hq output
  generalize s.queue output = out at *
  generalize ({ s with events := es } : Session).queue output = out' at *
  obtain ⟨r, s'⟩ := out
  obtain ⟨r', t'⟩ := out'
  simp only at hr heq
  subst hr heq
  cases r with
  | error e => exact ⟨rfl, es', rfl, he'⟩
  | ok u => exact ⟨rfl, es', rfl, he'⟩

theorem add_agree (h : Twin seen s t) (id : UInt32) (owner : StreamOwner) (protocol : Protocol) :
    Agree seen (s.add id owner protocol) (t.add id owner protocol) := by
  obtain ⟨es, rfl, he⟩ := h
  simp only [add]
  by_cases hl : s.ids.isLocal id = true <;> by_cases h0 : id = 0 <;>
    simp only [hl, h0, if_true, dif_pos, dif_neg, not_false_eq_true, Bool.false_eq_true, if_false]
  all_goals first
    | exact ⟨rfl, es, rfl, he⟩
    | exact ⟨rfl, _, rfl, by simp [he]⟩

theorem close_twin (h : Twin seen s t) (failure : Option Failure) (response : Option ErrorCode) :
    Twin seen (s.close failure response) (t.close failure response) := by
  obtain ⟨es, rfl, he⟩ := h
  simp only [close]
  split
  case isTrue => exact ⟨es, rfl, he⟩
  case isFalse =>
  have hshut : Twin seen (s.shut (failure.or s.drainFailure))
      (({ s with events := es } : Session).shut (failure.or s.drainFailure)) :=
    ⟨es ++ s.closingEvents (failure.or s.drainFailure), rfl, by simp [shut, he]⟩
  split
  case h_1 => exact hshut
  case h_2 =>
  split
  case h_1 => exact hshut
  case h_2 =>
  split
  case h_1 => exact hshut
  case h_2 output _ => exact (queue_agree hshut output).2

theorem close_agree {ρ : Type} (r : ρ) (h : Twin seen s t) (failure : Option Failure)
    (response : Option ErrorCode) :
    Agree seen (r, s.close failure response) (r, t.close failure response) :=
  ⟨rfl, close_twin h failure response⟩

theorem receiveEnd_agree (h : Twin seen s t) (id : UInt32) (payload : List UInt8) :
    Agree seen (s.receiveEnd id payload) (t.receiveEnd id payload) := by
  have hfail := failStream_agree h id .streamStateError .streamState
  obtain ⟨es, rfl, he⟩ := h
  simp only [receiveEnd]
  split
  case h_1 => exact ⟨rfl, es, rfl, he⟩
  case h_2 state _ =>
  split
  case isTrue => exact hfail
  case isFalse => exact ⟨rfl, complete_twin ⟨_, rfl, by simp [he]⟩ id⟩

theorem receiveData_agree (h : Twin seen s t) (id : UInt32) (payload : List UInt8)
    (hb : t.buffered id + payload.length > s.resources.limits.bufferedBytesPerStream ↔
      s.buffered id + payload.length > s.resources.limits.bufferedBytesPerStream) :
    Agree seen (s.receiveData id payload) (t.receiveData id payload) := by
  have hfail := failStream_agree h id
  obtain ⟨es, rfl, he⟩ := h
  simp only [receiveData, hb]
  split
  case h_1 => exact ⟨rfl, es, rfl, he⟩
  case h_2 state _ =>
  split
  case isTrue => exact hfail _ _
  case isFalse =>
  split
  case isTrue => exact hfail _ _
  case isFalse =>
  split
  case isTrue => exact hfail _ _
  case isFalse => exact ⟨rfl, _, rfl, by simp [he]⟩

theorem receiveOpen_agree (h : Twin seen s t) (id : UInt32) (payload : List UInt8)
    (registry : Registry) :
    Agree seen (s.receiveOpen id payload registry) (t.receiveOpen id payload registry) := by
  obtain ⟨es, rfl, he⟩ := h
  simp only [receiveOpen]
  split
  case h_1 => exact ⟨rfl, es, rfl, he⟩
  case h_2 ids _ =>
  have hids : Twin seen { s with ids } { s with ids, events := es } := ⟨es, rfl, he⟩
  split
  case isTrue => exact refuse_agree hids id _
  case isFalse =>
  split
  case isTrue => exact refuse_agree hids id _
  case isFalse =>
  split
  case h_1 => exact refuse_agree hids id _
  case h_2 selection _ =>
  split
  case h_1 => exact refuse_agree hids id _
  case h_2 owner _ =>
  obtain ⟨hr, hs⟩ := add_agree hids id owner ⟨selection.id, selection.version⟩
  generalize ({ s with ids } : Session).add id owner ⟨selection.id, selection.version⟩ = out at *
  generalize ({ s with ids, events := es } : Session).add id owner
    ⟨selection.id, selection.version⟩ = out' at *
  obtain ⟨r, s'⟩ := out
  obtain ⟨r', t'⟩ := out'
  simp only at hr hs
  subst hr
  cases r with
  | error e => exact ⟨rfl, hs⟩
  | ok u => exact ⟨rfl, hs⟩

theorem receiveGoaway_agree (h : Twin seen s t) (payload : List UInt8) :
    Agree seen (s.receiveGoaway payload) (t.receiveGoaway payload) := by
  have hrefuse : ∀ {s t : Session}, Twin seen s t → ∀ (last : UInt32) (outcome : StreamOutcome),
      Agree seen (((s.refusedBy last).foldl (fun s id => s.terminate id outcome) s).drain .normal)
        (((t.refusedBy last).foldl (fun s id => s.terminate id outcome) t).drain .normal) := by
    intro s t h last outcome
    have hby : t.refusedBy last = s.refusedBy last := by
      obtain ⟨es, rfl, -⟩ := h
      rfl
    rw [hby]
    exact drain_agree (foldl_terminate_twin h outcome _) .normal
  obtain ⟨es, rfl, he⟩ := h
  simp only [receiveGoaway]
  split
  case h_1 => exact ⟨rfl, es, rfl, he⟩
  case h_2 goaway _ =>
  split
  case isTrue => exact ⟨rfl, es, rfl, he⟩
  case isFalse =>
  split
  case isTrue =>
    refine hrefuse ?_ _ _
    exact ⟨es, rfl, he⟩
  case isFalse =>
    refine hrefuse ?_ _ _
    exact ⟨es, rfl, he⟩

theorem receivePing_agree (h : Twin seen s t) (kind : FrameType) (payload : List UInt8) :
    Agree seen (s.receivePing kind payload) (t.receivePing kind payload) := by
  have hq := queue_agree h
  obtain ⟨es, rfl, he⟩ := h
  simp only [receivePing]
  split
  case h_1 => exact ⟨rfl, es, rfl, he⟩
  case h_2 token _ =>
  split
  case isTrue =>
    split
    case h_1 => exact ⟨rfl, es, rfl, he⟩
    case h_2 output _ => exact hq output
  case isFalse =>
  split
  case h_1 => exact ⟨rfl, es, rfl, he⟩
  case h_2 =>
  split
  case h_1 => exact ⟨rfl, es, rfl, he⟩
  case h_2 => exact ⟨rfl, _, rfl, by simp [he]⟩

theorem receiveParts_agree (h : Twin seen s t) (kind : FrameType) (id : UInt32)
    (payload : List UInt8) (registry : Registry)
    (hb : kind = .data → s.streams.contains id = true →
      (t.buffered id + payload.length > s.resources.limits.bufferedBytesPerStream ↔
        s.buffered id + payload.length > s.resources.limits.bufferedBytesPerStream)) :
    Agree seen (s.receiveParts kind id payload registry) (t.receiveParts kind id payload registry) := by
  have hids : t.ids = s.ids ∧ t.streams = s.streams := by
    obtain ⟨es, rfl, -⟩ := h
    exact ⟨rfl, rfl⟩
  simp only [receiveParts, hids]
  by_cases hgo : kind = .goAway ∧ id = 0
  · rw [if_pos hgo, if_pos hgo]
    exact receiveGoaway_agree h payload
  rw [if_neg hgo, if_neg hgo]
  by_cases hping : (kind = .ping ∨ kind = .pong) ∧ id = 0
  · rw [if_pos hping, if_pos hping]
    exact receivePing_agree h kind payload
  rw [if_neg hping, if_neg hping]
  by_cases herr : kind = .error ∧ id = 0
  · rw [if_pos herr, if_pos herr]
    split
    case h_1 => exact ⟨rfl, h⟩
    case h_2 => exact close_agree _ h _ _
  rw [if_neg herr, if_neg herr]
  by_cases hcr : kind ≠ .open_ ∧ id ≠ 0 ∧ !s.ids.wasCreated id
  · rw [if_pos hcr, if_pos hcr]
    exact ⟨rfl, h⟩
  rw [if_neg hcr, if_neg hcr]
  by_cases hact : kind ≠ .open_ ∧ id ≠ 0 ∧ !s.streams.contains id
  · rw [if_pos hact, if_pos hact]
    exact ⟨rfl, h⟩
  rw [if_neg hact, if_neg hact]
  by_cases hstop : (kind = .cancel ∨ kind = .error) ∧ id ≠ 0
  · rw [if_pos hstop, if_pos hstop]
    split
    case h_1 => exact ⟨rfl, h⟩
    case h_2 => exact ⟨rfl, terminate_twin h id _⟩
  rw [if_neg hstop, if_neg hstop]
  by_cases hend : kind = .end_
  · rw [if_pos hend, if_pos hend]
    exact receiveEnd_agree h id payload
  rw [if_neg hend, if_neg hend]
  by_cases hdata : kind = .data
  · rw [if_pos hdata, if_pos hdata]
    by_cases hc : s.streams.contains id = true
    · exact receiveData_agree h id payload (hb hdata hc)
    · have hn : s.streams[id]? = none := by simpa using hc
      simp only [receiveData, hids, hn]
      exact ⟨rfl, h⟩
  rw [if_neg hdata, if_neg hdata]
  by_cases ho : kind ≠ .open_
  · rw [if_pos ho, if_pos ho]
    exact ⟨rfl, h⟩
  · rw [if_neg ho, if_neg ho]
    exact receiveOpen_agree h id payload registry

/-- Unread events that neither fill the queue nor count for the stream of the frame
do not influence what the frame does. -/
theorem receive_agree (h : Twin seen s t) (f : VerifiedFrame) (registry : Registry) (now : Instant)
    (hroom : s.eventLimit ≤ (s.tick now).events.length ↔
      s.eventLimit ≤ (t.tick now).events.length)
    (hb : f.wire.header.frameType = .data → s.streams.contains f.wire.header.streamId = true →
      ((t.tick now).buffered f.wire.header.streamId + f.wire.payload.length >
          s.resources.limits.bufferedBytesPerStream ↔
        (s.tick now).buffered f.wire.header.streamId + f.wire.payload.length >
          s.resources.limits.bufferedBytesPerStream)) :
    Agree seen (s.receive f registry now) (t.receive f registry now) := by
  have hfix : t.closed = s.closed ∧ (t.tick now).eventLimit = s.eventLimit ∧
      (s.tick now).eventLimit = s.eventLimit := by
    obtain ⟨es, rfl, -⟩ := h
    exact ⟨rfl, rfl, rfl⟩
  have htick := tick_twin h now
  simp only [receive, hfix, ge_iff_le, hroom]
  split
  case isTrue => exact ⟨rfl, h⟩
  case isFalse =>
  split
  case isTrue => exact close_agree _ htick _ _
  case isFalse =>
  obtain ⟨hr, hs⟩ := receiveParts_agree htick f.wire.header.frameType f.wire.header.streamId
    f.wire.payload registry hb
  generalize (s.tick now).receiveParts f.wire.header.frameType f.wire.header.streamId
    f.wire.payload registry = out at *
  generalize (t.tick now).receiveParts f.wire.header.frameType f.wire.header.streamId
    f.wire.payload registry = out' at *
  obtain ⟨r, s'⟩ := out
  obtain ⟨r', t'⟩ := out'
  simp only at hr hs
  subst hr
  rcases r with e | u
  · cases e <;> exact close_agree _ hs _ _
  · exact ⟨rfl, hs⟩

end Session

end TalkSphere
