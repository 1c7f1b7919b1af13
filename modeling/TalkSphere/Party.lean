import TalkSphere.EndpointRuns
import TalkSphere.Scheduler
import TalkSphere.SessionReceive

/-! A session together with the history of its run, the calls its driver and its
consumers make, and the endpoint steps each call amounts to. -/

namespace TalkSphere

open Std (TreeMap)
open Relation (ReflTransGen)

def Call.now? : Call → Option Instant
  | .ping _ _ now => some now
  | .tick now => some now
  | .receive _ _ now => some now
  | _ => none

/-- The calls of consumers and timers; the others carry frames or end the session. -/
def Call.isLocal : Call → Bool
  | .popOutbound | .receive _ _ _ | .close _ _ => false
  | _ => true

structure Party where
  session : Session
  log : List Event
  sends : List (UInt32 × List UInt8)
  reports : List UInt32
  unreported : List (FrameType × UInt32)
  clock : Instant

namespace Party

def start (session : Session) (clock : Instant) : Party :=
  { session, log := session.events, sends := [], reports := [], unreported := [], clock }

/-- The party after a call that left `s`; the events it added are recorded. -/
def after (p : Party) (s : Session) : Party :=
  { p with session := s, log := p.log ++ s.events.drop p.session.events.length }

def run (p : Party) (c : Call) : Party :=
  let p := { p with clock := c.now?.getD p.clock }
  match c with
  | .open_ registry owner => p.after (p.session.open_ registry owner).2
  | .send owner stream bytes =>
    let out := p.session.send owner stream bytes
    { p.after out.2 with
      sends := if out.1.isOk then p.sends ++ [(stream.wireId, bytes)] else p.sends }
  | .end_ owner stream => p.after (p.session.end_ owner stream).2
  | .cancel owner stream reason => p.after (p.session.cancel owner stream reason).2
  | .ping token timeout now => p.after (p.session.ping token timeout now).2
  | .drain reason => p.after (p.session.drain reason).2
  | .tick now => p.after (p.session.tick now)
  | .popEvent => { p with session := p.session.popEvent.2 }
  | .popStreamEvent owner => { p with session := (p.session.popStreamEvent owner).2 }
  | .popOutbound =>
    { p with
      session := p.session.popOutbound.2
      unreported := p.unreported ++
        p.session.popOutbound.1.toList.map fun f => (f.header.frameType, f.header.streamId) }
  | .sent kind id =>
    { p.after (p.session.sent kind id) with
      reports := if kind = .end_ then p.reports ++ [id] else p.reports
      unreported := p.unreported.erase (kind, id) }
  | .receive f registry now => p.after (p.session.receive f registry now).2
  | .close failure response => p.after (p.session.close failure response)
  | .budget used =>
    { p with session := { p.session with
        resources := { p.session.resources with outboundUsed := used } } }

/-- Only a popped frame is reported, and only once. -/
def Enabled (p : Party) : Call → Prop
  | .sent kind id => (kind, id) ∈ p.unreported
  | _ => True

def Timely (p : Party) (c : Call) : Prop := ∀ now ∈ c.now?, p.clock ≤ now

def history (p : Party) : History :=
  { log := p.log, seen := p.session.events.length, sends := p.sends, reports := p.reports }

def endpoint (p : Party) : Endpoint := p.session.endpoint p.history

variable {p : Party}

@[simp] theorem endpoint_log (p : Party) : p.endpoint.log = p.log := by
  simp [endpoint, Session.endpoint, history]

theorem ready (hs : p.session.Sound) : Session.Ready p.history p.session := ⟨hs, le_rfl⟩

theorem endpoint_after (p : Party) (s : Session) : (p.after s).endpoint = s.endpoint p.history := by
  simp [endpoint, after, Session.endpoint, history]

theorem after_moves {s : Session} (hm : Session.Moves p.history p.session s) :
    (p.after s).session.Sound ∧ ReflTransGen Endpoint.Local p.endpoint (p.after s).endpoint := by
  rw [endpoint_after]
  exact ⟨hm.1.sound, hm.2⟩

theorem popEvent_sound (hs : p.session.Sound) (clock : Instant) :
    ({ p with session := p.session.popEvent.2, clock } : Party).session.Sound ∧
      ({ p with session := p.session.popEvent.2, clock } : Party).endpoint = p.endpoint := by
  unfold Session.popEvent
  split
  · exact ⟨hs, rfl⟩
  · refine ⟨⟨hs.keyed, hs.closed_streams, hs.closed_pings, hs.ids⟩, ?_⟩
    simp [endpoint, Session.endpoint, history]

theorem popStreamEvent_sound (hs : p.session.Sound) (owner : StreamOwner) (clock : Instant) :
    ({ p with session := (p.session.popStreamEvent owner).2, clock } : Party).session.Sound ∧
      ({ p with session := (p.session.popStreamEvent owner).2, clock } : Party).endpoint =
        p.endpoint := by
  unfold Session.popStreamEvent
  split
  · exact ⟨hs, rfl⟩
  · refine ⟨⟨hs.keyed, hs.closed_streams, hs.closed_pings, hs.ids⟩, ?_⟩
    simp [endpoint, Session.endpoint, history]

theorem run_local (hs : p.session.Sound) {c : Call} (hc : c.isLocal = true) :
    (p.run c).session.Sound ∧ ReflTransGen Endpoint.Local p.endpoint (p.run c).endpoint := by
  have hr := ready hs
  cases c with
  | open_ registry owner => exact after_moves (Session.open_moves hr registry owner)
  | send owner stream bytes =>
    have ha := p.session.send_answer owner stream bytes
    have hend : (p.run (.send owner stream bytes)).endpoint =
        (p.session.send owner stream bytes).2.endpoint { p.history with
          sends := if (p.session.send owner stream bytes).1.isOk then
            p.sends ++ [(stream.wireId, bytes)] else p.sends } := by
      simp [run, endpoint, after, Session.endpoint, history]
    have hrun : (p.run (.send owner stream bytes)).session =
        (p.session.send owner stream bytes).2 := rfl
    rw [hend, hrun]
    generalize p.session.send owner stream bytes = out at ha ⊢
    cases ha with
    | refused => exact ⟨hs, .refl⟩
    | served a done =>
      obtain ⟨hr', hstep⟩ := done.sends hr
      exact ⟨hr'.sound, .single hstep⟩
  | end_ owner stream =>
    exact after_moves ((p.session.end_answer owner stream).moves hr (by rintro _ _ _ ⟨⟩))
  | cancel owner stream reason =>
    exact after_moves ((p.session.cancel_answer owner stream reason).moves hr (by rintro _ _ _ ⟨⟩))
  | ping token timeout now =>
    exact after_moves ((p.session.ping_answer token timeout now).moves hr (by rintro _ _ _ ⟨⟩))
  | drain reason =>
    exact after_moves ((p.session.drain_answer reason).moves hr (by rintro _ _ _ ⟨⟩))
  | tick now => exact after_moves (Session.tick_moves hr now)
  | popEvent =>
    have hp := popEvent_sound hs p.clock
    exact ⟨hp.1, hp.2 ▸ .refl⟩
  | popStreamEvent owner =>
    have hp := popStreamEvent_sound hs owner p.clock
    exact ⟨hp.1, hp.2 ▸ .refl⟩
  | popOutbound => cases hc
  | sent kind id =>
    obtain ⟨hr', hm⟩ := Session.sent_moves hr kind id
    have hend : (p.run (.sent kind id)).endpoint =
        (p.session.sent kind id).endpoint (Session.History.report p.history kind id) := by
      simp only [run, endpoint, after, Session.endpoint, history, Session.History.report]
      split <;> simp
    rw [hend]
    exact ⟨hr'.sound, hm⟩
  | receive f registry now => cases hc
  | close failure response => cases hc
  | budget used =>
    exact ⟨⟨hs.keyed, hs.closed_streams, hs.closed_pings, hs.ids⟩, .refl⟩

theorem run_popOutbound (hs : p.session.Sound) : (p.run .popOutbound).session.Sound ∧
    ((p.session.popOutbound.1 = none ∧ (p.run .popOutbound).endpoint = p.endpoint) ∨
      ∃ f, p.session.popOutbound.1 = some f ∧
        (p.run .popOutbound).endpoint =
          { p.endpoint with queue := (p.run .popOutbound).endpoint.queue } ∧
        Session.Picks p.endpoint.queue f.message (p.run .popOutbound).endpoint.queue) := by
  simp only [run, Session.popOutbound]
  rcases Session.nextOutput_cases p.session with hn | ⟨f, s', hn, ⟨last, outbound, rfl⟩, hpick⟩ <;>
    rw [hn]
  · exact ⟨hs, .inl ⟨rfl, rfl⟩⟩
  · obtain ⟨pre, post, -, -, hp⟩ := hpick
    exact ⟨⟨hs.keyed, hs.closed_streams, hs.closed_pings, hs.ids⟩, .inr ⟨f, rfl, rfl, hp⟩⟩

theorem run_close (hs : p.session.Sound) (failure : Option Failure) (response : Option ErrorCode) :
    (p.run (.close failure response)).session.Sound ∧
      ReflTransGen Endpoint.Free p.endpoint (p.run (.close failure response)).endpoint := by
  have hend := endpoint_after p (p.session.close failure response)
  by_cases hc : p.session.closed = true
  · have hcl : p.session.close failure response = p.session := by simp [Session.close, hc]
    rw [hcl] at hend
    simp only [run, hcl]
    exact ⟨hs, hend ▸ .refl⟩
  · have hopen : p.session.closed = false := Bool.eq_false_iff.mpr hc
    obtain ⟨reply, -, he, hr⟩ := Session.endpoint_close (ready hs) hopen failure response
    refine ⟨hr.sound, .single ?_⟩
    have hstep := Endpoint.Forced.close (e := p.endpoint) reply hopen
      (Session.closingEvents_closing hs p.history (failure.or p.session.drainFailure))
    have hgoal : (p.run (.close failure response)).endpoint =
        p.endpoint.shut (p.session.closingEvents (failure.or p.session.drainFailure)) reply :=
      hend.trans he
    rw [hgoal]
    exact .forced hstep

theorem run_receive (hs : p.session.Sound) (f : VerifiedFrame) (registry : Registry)
    (now : Instant) : (p.run (.receive f registry now)).session.Sound ∧
      ReflTransGen Endpoint.Free p.endpoint (p.run (.receive f registry now)).endpoint := by
  obtain ⟨hr, hf⟩ := Session.receive_free (ready hs) f registry now
  have hend := endpoint_after p (p.session.receive f registry now).2
  have hgoal : (p.run (.receive f registry now)).endpoint =
      (p.session.receive f registry now).2.endpoint p.history := hend
  rw [hgoal]
  exact ⟨hr.sound, hf⟩

theorem run_free (hs : p.session.Sound) (c : Call) : (p.run c).session.Sound ∧
    ReflTransGen Endpoint.Free p.endpoint (p.run c).endpoint := by
  by_cases hc : c.isLocal = true
  · obtain ⟨hs', hl⟩ := run_local hs hc
    exact ⟨hs', Session.Local.free hl⟩
  · cases c with
    | popOutbound =>
      obtain ⟨hs', ⟨-, he⟩ | ⟨f, -, he, -⟩⟩ := run_popOutbound hs
      · exact ⟨hs', by rw [he]⟩
      · refine ⟨hs', .single ?_⟩
        rw [he]
        exact .popped _
    | receive f registry now => exact run_receive hs f registry now
    | close failure response => exact run_close hs failure response
    | _ => exact absurd rfl hc

/-- No probe starts in the future. -/
def Punctual (p : Party) : Prop :=
  ∀ (token : Token) (x : Instant × Instant), p.session.pings[token]? = some x → x.1 ≤ p.clock

theorem Punctual.of_sub {q : Party} (hp : p.Punctual) (hc : p.clock ≤ q.clock)
    (hs : ∀ (token : Token) (x : Instant × Instant), q.session.pings[token]? = some x →
      p.session.pings[token]? = some x ∨ x.1 = q.clock) : q.Punctual := by
  intro token x hx
  rcases hs token x hx with hx | hx
  · exact (hp token x hx).trans hc
  · exact hx.le

theorem receive_pings (hs : p.session.Sound) (f : VerifiedFrame) (registry : Registry)
    (now : Instant) (token : Token) (x : Instant × Instant)
    (hx : (p.session.receive f registry now).2.pings[token]? = some x) :
    p.session.pings[token]? = some x := by
  have hr := (Session.receive_free (ready hs) f registry now).1
  by_cases hc : (p.session.receive f registry now).2.closed = true
  · rw [hr.sound.closed_ping hc token] at hx
    cases hx
  · have hd := p.session.receive_dispatched f registry now
    generalize p.session.receive f registry now = out at hd hx hc
    cases hd with
    | late => exact hx
    | crowded => exact absurd (Session.close_keeps _ _ _).1 hc
    | failed => exact absurd (Session.close_keeps _ _ _).1 hc
    | served live room parts =>
      have hparted := Session.receiveParts_parted (s := p.session.tick now) live
        f.wire.header.frameType f.wire.header.streamId f.wire.payload registry
      rw [parts] at hparted
      refine Session.tick_pings _ now token x ?_
      cases hparted with
      | worked works => exact works.keeps.pings ▸ hx
      | data => exact hx
      | answered =>
        simp only [TreeMap.getElem?_erase] at hx
        split at hx
        · cases hx
        · exact hx
      | fatal => exact absurd (Session.close_keeps _ _ _).1 hc

theorem run_turn (hv : p.session.ids.Valid) (c : Call) :
    Session.Turn p.session c (p.run c).session := by
  cases c with
  | open_ registry owner => exact Session.open_turn hv registry owner
  | send owner stream bytes => exact (p.session.send_answer owner stream bytes).turn hv
  | end_ owner stream => exact (p.session.end_answer owner stream).turn hv
  | cancel owner stream reason => exact (p.session.cancel_answer owner stream reason).turn hv
  | ping token timeout now => exact (p.session.ping_answer token timeout now).turn hv
  | drain reason => exact (p.session.drain_answer reason).turn hv
  | tick now => exact .ticked now
  | popEvent =>
    simp only [run, Session.popEvent]
    split
    case h_1 => exact .worked (.refl _ 0) (Nat.zero_le 2) (.inl rfl)
    case h_2 e rest he => exact .read rfl (he ▸ List.sublist_cons_self e rest)
  | popStreamEvent owner =>
    simp only [run, Session.popStreamEvent]
    split
    case h_1 => exact .worked (.refl _ 0) (Nat.zero_le 2) (.inl rfl)
    case h_2 => exact .read rfl (List.eraseIdx_sublist ..)
  | popOutbound =>
    obtain ⟨last, outbound, hp⟩ := p.session.popOutbound_eq
    simp only [run, hp]
    exact .taken last outbound
  | sent kind id => exact .sent kind id
  | receive f registry now => exact .received f registry now
  | close failure response => exact .closed failure response
  | budget used => exact .lent used

theorem run_log (p : Party) (c : Call) : (p.run c).log =
    p.log ++ (p.run c).session.events.drop p.session.events.length := by
  have hquiet : ∀ {s : Session}, s.events.length ≤ p.session.events.length →
      p.log = p.log ++ s.events.drop p.session.events.length := fun hl => by
    rw [List.drop_eq_nil_of_le hl, List.append_nil]
  cases c with
  | popEvent =>
    refine hquiet ?_
    simp only [run, Session.popEvent]
    split <;> simp [*]
  | popStreamEvent owner =>
    refine hquiet ?_
    simp only [run, Session.popStreamEvent]
    split
    · exact le_rfl
    · exact (List.eraseIdx_sublist ..).length_le
  | popOutbound =>
    obtain ⟨last, outbound, hp⟩ := p.session.popOutbound_eq
    exact hquiet (by simp only [run, hp, le_refl])
  | budget used => exact hquiet le_rfl
  | _ => rfl

theorem Punctual.run (hp : p.Punctual) (hs : p.session.Sound) {c : Call} (ht : p.Timely c) :
    (p.run c).Punctual := by
  have hclock : (p.run c).clock = c.now?.getD p.clock := by cases c <;> rfl
  have hle : p.clock ≤ (p.run c).clock := by
    rw [hclock]
    cases hn : c.now? with
    | none => exact le_rfl
    | some now => exact ht now hn
  have hsound := (run_free hs c).1
  have hturn := run_turn hs.ids c
  refine hp.of_sub hle fun token x hx => ?_
  rw [hclock]
  generalize (p.run c).session = s' at hturn hx hsound
  cases hturn with
  | worked works => exact .inl (works.keeps.pings ▸ hx)
  | overfull | closed =>
    rw [hsound.closed_ping (Session.close_keeps _ _ _).1] at hx
    cases hx
  | pinged works =>
    simp only [TreeMap.getElem?_insert] at hx
    split at hx
    · cases hx
      exact .inr rfl
    · exact .inl hx
  | ticked now => exact .inl (Session.tick_pings _ now token x hx)
  | read | taken | lent => exact .inl hx
  | sent kind id => exact .inl ((Session.sent_keeps _ kind id).pings ▸ hx)
  | received f registry now => exact .inl (receive_pings hs f registry now token x hx)

end Party

end TalkSphere
