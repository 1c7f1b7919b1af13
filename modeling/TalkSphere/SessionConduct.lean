import TalkSphere.ConnectionSound
import TalkSphere.PingLedger

/-! What the owner of a session does with it until it closes normally: the calls it makes,
the frames it takes and the counters it shares. Along these the history of the events stays
that of a session, and no normal closure is reported. -/

namespace TalkSphere

open Relation (ReflTransGen)

def Call.isOrdinary : Call → Bool
  | .popEvent | .popStreamEvent _ | .close none _ => false
  | _ => true

def Event.Other (e : Event) : Prop := ∀ id, e ≠ .connectionClosed id none

theorem Event.Plain.other {e : Event} (h : e.Plain) : e.Other := by
  rintro id rfl
  exact absurd h.1 nofun

namespace Session

variable {s s' : Session} {ok ok' : Call → Prop}

inductive Conduct (ok : Call → Prop) : Session → Session → Prop
  | call {s : Session} (c : Call) (ordinary : c.isOrdinary = true) (allowed : ok c) :
      Conduct ok s (s.perform c)
  | taken {s : Session} (last : Option UInt32) (outbound : List WireFrame)
      (resources : Resources) : Conduct ok s { s with lastOutput := last, outbound, resources }

theorem Conduct.sound (h : Conduct ok s s') (hs : s.Sound) : s'.Sound := by
  cases h with
  | call c => exact perform_sound hs c
  | taken => exact ⟨hs.keyed, hs.closed_streams, hs.closed_pings, hs.ids⟩

section Other

theorem tick_other (s : Session) (now : Instant) : Emits Event.Other s (s.tick now) := by
  refine ⟨_, rfl, fun e he id h => ?_⟩
  obtain ⟨token, -, rfl⟩ := List.mem_map.mp he
  cases h

theorem close_other (s : Session) (failure : Failure) (response : Option ErrorCode) :
    Emits Event.Other s (s.close (some failure) response) := by
  by_cases hc : s.closed = true
  · rw [close, if_pos hc]
    exact .nothing rfl
  · refine ⟨_, close_events (by simpa using hc) _ _, fun e he id h => ?_⟩
    subst h
    simp only [Option.some_or, closingEvents, List.mem_append, List.mem_map,
      List.mem_singleton] at he
    rcases he with (⟨x, -, hx⟩ | ⟨x, -, hx⟩) | hx <;> cases hx

theorem receive_other (hs : s.Sound) (f : VerifiedFrame) (registry : Registry) (now : Instant) :
    Emits Event.Other s (s.receive f registry now).2 := by
  have hd := s.receive_dispatched f registry now
  generalize s.receive f registry now = out at hd ⊢
  have hsound : (s.tick now).Sound := perform_sound hs (.tick now)
  have hparts : ∀ {result : Except SessionError Unit} {s' : Session}, s.closed = false →
      (s.tick now).receiveParts f.wire.header.frameType f.wire.header.streamId f.wire.payload
        registry = (result, s') → Emits Event.Other (s.tick now) s' := by
    intro result s' live hp
    have hparted := receiveParts_parted (s := s.tick now) live f.wire.header.frameType
      f.wire.header.streamId f.wire.payload registry
    rw [hp] at hparted
    cases hparted with
    | worked works => exact (works.emits hsound).mono fun _ he => he.other
    | data => exact .one rfl nofun
    | answered => exact .one rfl nofun
    | stale => exact .nothing rfl
    | fatal => exact close_other _ _ none
  have htick := tick_other s now
  cases hd with
  | late => exact .nothing rfl
  | crowded => exact htick.trans (close_other _ _ none)
  | failed live room cause parts =>
    exact htick.trans ((hparts live parts).trans (close_other _ _ _))
  | served live room parts => exact htick.trans (hparts live parts)

theorem perform_other (hs : s.Sound) {c : Call} (hc : c.isOrdinary = true) :
    Emits Event.Other s (s.perform c) := by
  have plain : ∀ {s' : Session}, Emits Event.Plain s s' → Emits Event.Other s s' :=
    fun h => h.mono fun _ he => he.other
  have hturn := perform_turn hs.ids c
  generalize s.perform c = s' at hturn ⊢
  cases hturn with
  | worked works | pinged works => exact plain (works.emits hs)
  | @overfull _ stream reason =>
    have hterm := terminate_works s (.cancelled .local_ reason) (I := (· = stream.wireId)) rfl
    exact (plain (hterm.emits hs)).trans (close_other _ _ none)
  | ticked now => exact tick_other s now
  | read reads => cases c <;> cases reads <;> cases hc
  | taken | lent => exact .nothing rfl
  | sent kind id => exact plain (sent_emits hs kind id)
  | received f registry now => exact receive_other hs f registry now
  | closed failure response =>
    cases failure with
    | none => cases hc
    | some failure => exact close_other s failure response

theorem Conduct.other (h : Conduct ok s s') (hs : s.Sound) : Emits Event.Other s s' := by
  cases h with
  | call c ordinary => exact perform_other hs ordinary
  | taken => exact .nothing rfl

end Other

section Written

theorem perform_written (hv : s.ids.Valid) {c : Call} (hc : ∀ id, c ≠ .sent .goAway id) :
    (s.perform c).goawayWritten = s.goawayWritten := by
  have hturn := perform_turn hv c
  generalize s.perform c = s' at hturn ⊢
  cases hturn with
  | worked works | pinged works => exact works.keeps.written
  | overfull => exact (close_keeps _ _ none).2.written.trans (terminate_keeps s _ _).written
  | ticked | read | taken | lent => rfl
  | sent kind id =>
    have hk : kind ≠ .goAway := fun h => hc id (by rw [h])
    exact (sent_keeps s kind id).written.trans (by simp [hk])
  | received f registry now => exact (receive_carries s f registry now).written
  | closed failure response => exact (close_keeps s failure response).2.written

theorem Conduct.written (h : Conduct ok s s') (hs : s.Sound) (hw : s'.goawayWritten = true) :
    s.goawayWritten = true ∨ ∃ id, ok (.sent .goAway id) := by
  cases h with
  | taken => exact .inl hw
  | call c ordinary allowed =>
    by_cases hc : ∃ id, c = .sent .goAway id
    · obtain ⟨id, rfl⟩ := hc
      exact .inr ⟨id, allowed⟩
    · rw [perform_written hs.ids fun id h => hc ⟨id, h⟩] at hw
      exact .inl hw

end Written

def Tracked (log : List Event) (s : Session) : Prop :=
  ∃ p : Party, p.session = s ∧ p.log = log ∧ p.endpoint.Healthy

theorem Tracked.fresh {role : ConnectionRole} (h : s.Fresh role) : Tracked s.events s :=
  ⟨Party.start s 0, rfl, rfl, h.healthy 0⟩

theorem run_session (p : Party) (c : Call) : (p.run c).session = p.session.perform c := by
  cases c <;> rfl

theorem Tracked.conduct {log : List Event} (ht : Tracked log s) (hs : s.Sound)
    (h : Conduct ok s s') : Tracked (log ++ s'.events.drop s.events.length) s' := by
  obtain ⟨p, rfl, rfl, hh⟩ := ht
  cases h with
  | call c ordinary =>
    exact ⟨p.run c, run_session p c, run_session p c ▸ p.run_log c, (p.run_healthy hs hh c).2⟩
  | taken last outbound resources =>
    refine ⟨{ p with session := { p.session with lastOutput := last, outbound, resources } }, rfl,
      by simp, ?_⟩
    have hfree : Endpoint.Free p.endpoint (Party.endpoint { p with
        session := { p.session with lastOutput := last, outbound, resources } }) :=
      .popped (e := p.endpoint) _
    exact hh.frees (.single hfree)

theorem Tracked.taken {log : List Event} (ht : Tracked log s) (hs : s.Sound)
    (last : Option UInt32) (outbound : List WireFrame) (resources : Resources) :
    Tracked log { s with lastOutput := last, outbound, resources } := by
  have htaken : Conduct (fun _ => True) s { s with lastOutput := last, outbound, resources } :=
    .taken last outbound resources
  simpa using ht.conduct hs htaken

theorem Tracked.read {log : List Event} (ht : Tracked log s) (hs : s.Sound) {c : Call}
    (hc : c.isRead = true) : Tracked log (s.perform c) := by
  obtain ⟨p, rfl, rfl, hh⟩ := ht
  refine ⟨p.run c, run_session p c, ?_, (p.run_healthy hs hh c).2⟩
  cases c with
  | popEvent | popStreamEvent => rfl
  | _ => cases hc

theorem Tracked.close {log : List Event} (ht : Tracked log s) (hs : s.Sound)
    (hopen : s.closed = false) (failure : Option Failure) :
    Tracked (log ++ s.closingEvents (failure.or s.drainFailure)) (s.close failure none) := by
  obtain ⟨p, rfl, rfl, hh⟩ := ht
  refine ⟨p.run (.close failure none), rfl, ?_, (p.run_healthy hs hh _).2⟩
  simp only [Party.run, Party.after, close_events hopen, List.drop_left]

theorem Tracked.closed_streams {log : List Event} (ht : Tracked log s) {context : PeerContext}
    {stream : StreamHandle} {protocol : Protocol}
    (hm : .streamOpened context stream protocol ∈ log)
    (hnone : s.streams[stream.wireId]? = none) :
    ∃ outcome, .streamClosed stream outcome ∈ log := by
  obtain ⟨p, rfl, rfl, hh⟩ := ht
  have hin : .streamOpened context stream protocol ∈ trace stream.wireId p.log :=
    List.mem_filter.mpr ⟨hm, by simp [onStream, Event.stream?]⟩
  have hl := hh.lives stream.wireId
  have hst : p.endpoint.streams stream.wireId = none := hnone
  rw [Endpoint.Lives, hst, Party.endpoint_log] at hl
  rcases hl with hl | ⟨-, context', stream', protocol', data, ended, outcome, hdata, hend, -, hl⟩
  · rw [hl] at hin
    cases hin
  · -- the trace has one opening, and its closing is of the same stream
    have hsame : stream = stream' := by
      rw [hl] at hin
      rcases List.mem_cons.mp hin with h | hin
      · exact (Event.streamOpened.inj h).2.1
      · rcases List.mem_append.mp hin with hin | hin
        · rcases List.mem_append.mp hin with hin | hin
          · obtain ⟨bytes, h⟩ := hdata _ hin
            cases h
          · rcases hend with rfl | rfl
            · cases hin
            · cases List.mem_singleton.mp hin
        · cases List.mem_singleton.mp hin
    have hclosed : .streamClosed stream' outcome ∈ trace stream.wireId p.log := by
      rw [hl]
      simp
    exact ⟨outcome, hsame ▸ (List.mem_filter.mp hclosed).1⟩

theorem Conduct.silent (h : Conduct ok s s') (hs : s.Sound) (hc : s.closed = true) :
    s'.closed = true ∧ s'.events = s.events := by
  obtain ⟨more, he, -⟩ := h.other hs
  cases h with
  | taken => exact ⟨hc, rfl⟩
  | call c ordinary =>
    have hfree := (Party.run_free (p := Party.start s 0) hs c).2
    obtain ⟨hclosed, hlog⟩ := Endpoint.closed_frees hfree hc
    refine ⟨hclosed, ?_⟩
    rw [Party.endpoint_log, Party.endpoint_log, Party.run_log, run_session] at hlog
    have hnil : more = [] := by simpa [Party.start, he] using hlog
    rw [he, hnil, List.append_nil]

end Session

end TalkSphere
