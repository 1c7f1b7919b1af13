import TalkSphere.SessionActs
import TalkSphere.SlowConsumer

/-! The memory of unread events. Every event is either owed already, by an open
stream, a running ping or the closure to come, or it is admitted by a check of the
event limit. Pings alone are admitted without that check. -/

namespace TalkSphere

open Relation (ReflTransGen)

def ResourceLimits.eventBound (limits : ResourceLimits) : Nat :=
  saturatingAdd (saturatingMul limits.streamsPerConnection 4) 130 +
    limits.streamsPerConnection + 66

namespace Session

variable {s s' : Session}

/-- The load of a session and the tables it comes from stay in their bounds. -/
structure Bounded (limits : ResourceLimits) (s : Session) : Prop where
  load : s.load ≤ limits.eventBound
  streams : s.streams.size ≤ limits.streamsPerConnection
  pings : s.pings.size ≤ 64
  limits : s.resources.limits = limits

theorem Bounded.effect {limits : ResourceLimits} (h : Bounded limits s) (he : Effect 0 s s') :
    Bounded limits s' := by
  obtain ⟨hl, hs, hp, hlim⟩ := h
  have hload := he.load
  have hstreams := he.streams
  have hpings := he.pings
  rw [hlim] at hstreams
  exact ⟨by omega, by omega, by omega, he.limits.trans hlim⟩

theorem Bounded.grow {limits : ResourceLimits} (h : Bounded limits s) {n : Nat} (hn : n ≤ 2)
    (hroom : s.events.length < s.eventLimit) (he : Effect n s s') : Bounded limits s' := by
  obtain ⟨-, hs, hp, hlim⟩ := h
  have hload := he.load
  have hstreams := he.streams
  have hpings := he.pings
  rw [hlim] at hstreams
  refine ⟨?_, by omega, by omega, he.limits.trans hlim⟩
  have hone : (if s.closed then 0 else 1) ≤ 1 := by split <;> omega
  have hnow : s.load = s.events.length + s.streams.size + s.pings.size +
      if s.closed then 0 else 1 := rfl
  rw [eventLimit, hlim] at hroom
  rw [ResourceLimits.eventBound]
  omega

theorem Bounded.metered {limits : ResourceLimits} (h : Bounded limits s) (hm : Metered 2 s s') :
    Bounded limits s' := by
  obtain ⟨mid, k, h₀, h₁, hk, rfl | hroom⟩ := hm
  · exact (h.effect h₀).effect h₁
  · exact (h.effect h₀).grow hk hroom h₁

theorem Fresh.bounded {role : ConnectionRole} (h : s.Fresh role) :
    Bounded s.resources.limits s := by
  obtain ⟨handle, mine, peers, resources, rfl⟩ := h
  refine ⟨?_, Nat.zero_le _, Nat.zero_le _, rfl⟩
  have hload : ((withHandle handle role mine peers).setResources resources).load = 2 := rfl
  rw [hload, ResourceLimits.eventBound]
  omega

end Session

namespace Party

variable {p p' : Party}

def PacedStep (p p' : Party) : Prop := ∃ c, p.Paced c ∧ p' = p.run c

theorem run_bounded {limits : ResourceLimits} (hs : p.session.Sound)
    (hb : Session.Bounded limits p.session) {c : Call} (hc : p.Paced c) :
    Session.Bounded limits (p.run c).session := by
  have ⟨hl, hst, hp, hlim⟩ := hb
  cases c with
  | popEvent =>
    simp only [run, Session.popEvent]
    split
    case h_1 => exact hb
    case h_2 e rest he =>
      refine ⟨le_trans ?_ hl, hst, hp, hlim⟩
      simp only [Session.load, he, List.length_cons]
      omega
  | popStreamEvent owner =>
    simp only [run, Session.popStreamEvent]
    split
    case h_1 => exact hb
    case h_2 i _ =>
      refine ⟨le_trans ?_ hl, hst, hp, hlim⟩
      have := List.length_eraseIdx_le p.session.events i
      simp only [Session.load]
      omega
  | popOutbound =>
    simp only [run, Session.popOutbound]
    rcases Session.nextOutput_cases p.session with hn | ⟨f, s', hn, ⟨last, outbound, rfl⟩, -⟩ <;>
      rw [hn] <;> exact ⟨hl, hst, hp, hlim⟩
  | budget used => exact ⟨hl, hst, hp, hlim⟩
  | _ => exact hb.metered (run_metered hs rfl hc)

/-- In every run whose pings respect the event limit, unread events stay below a
bound that the limits alone determine. -/
theorem paced_events_bounded {role : ConnectionRole} {s : Session} {clock : Instant}
    (hs : s.Fresh role) (hp : ReflTransGen PacedStep (start s clock) p) :
    p.session.events.length ≤ s.resources.limits.eventBound := by
  have hinv : p.session.Sound ∧ Session.Bounded s.resources.limits p.session := by
    induction hp with
    | refl => exact ⟨hs.sound.1, hs.bounded⟩
    | tail _ hstep ih =>
      obtain ⟨c, hc, rfl⟩ := hstep
      exact ⟨(run_free ih.1 c).1, run_bounded ih.1 ih.2 hc⟩
  have hload := hinv.2.load
  rw [Session.load] at hload
  omega

theorem paced_events_bounded_probe :
    idle.session.events.length < idle.session.eventLimit ∧
    ((idle.run (.ping (Vector.replicate 8 0) 1 0)).run (.tick 1)).session.events.length ≤
      idle.session.resources.limits.eventBound := by
  have hroom : idle.session.events.length < idle.session.eventLimit := by decide
  have hping : PacedStep idle (idle.run (.ping (Vector.replicate 8 0) 1 0)) :=
    ⟨.ping (Vector.replicate 8 0) 1 0, hroom, rfl⟩
  have hs : idle.session.Fresh .acceptor := ⟨_, _, _, _, rfl⟩
  exact ⟨hroom, paced_events_bounded hs ((ReflTransGen.single hping).tail ⟨.tick 1, trivial, rfl⟩)⟩

end Party

def Party.probe (p : Party) (now : Instant) : Party :=
  (((p.run (.ping (Vector.replicate 8 0) 1 now)).run .popOutbound).run (.budget 0)).run
    (.tick (now + 1))

/-- One probe after the other. The clock starts again only after `instantMax` of them. -/
def Party.probing : Nat → Party
  | 0 => Party.idle
  | n + 1 => (Party.probing n).probe (n % instantMax)

/-- Nothing is queued or pending, and the budget has room for a PING. -/
structure Session.Calm (s : Session) : Prop where
  closed : s.closed = false
  pings : s.pings.isEmpty = true
  outbound : s.outbound = []
  used : s.resources.outboundUsed = 0
  room : 36 ≤ s.resources.limits.outboundBytes

theorem Session.Calm.ping {s : Session} (h : s.Calm) (token : Token) {now : Instant}
    (hnow : now + 1 ≤ instantMax) :
    ∃ f lease resources, f.header.streamId = 0 ∧ resources.limits = s.resources.limits ∧
      (s.ping token 1 now).2 = { s with
        resources, outbound := [WireFrame.leased f lease]
        pings := s.pings.insert token (now, now + 1) } := by
  have hc : s.pings.contains token = false := by
    cases hk : s.pings.contains token with
    | false => rfl
    | true =>
      have he := h.pings
      rw [Std.TreeMap.isEmpty_eq_false_of_contains hk] at he
      cases he
  have hsize : s.pings.size = 0 := by
    have he := h.pings
    rwa [Std.TreeMap.isEmpty_eq_size_eq_zero, beq_iff_eq] at he
  obtain ⟨f, hf, -, hi, hp⟩ := frame_eq .ping 0
    (show token.toList.length ≤ maxPayloadBytes by simp [maxPayloadBytes]) rfl
  have hroom : s.resources.outbound (f.payload.length + queuedOverhead) =
      some (⟨36⟩, { s.resources with outboundUsed := 36 }) := by
    have hr := h.room
    simp [Resources.outbound, reserve, hp, queuedOverhead, h.used, hr]
  refine ⟨f, ⟨36⟩, { s.resources with outboundUsed := 36 }, hi, rfl, ?_⟩
  simp only [Session.ping, h.closed, hc, hsize, Instant.checkedAdd, hnow, hf, Session.queue, hroom,
    h.outbound]
  rfl

theorem Session.popOutbound_single {s : Session} {f : WireFrame} (h : s.outbound = [f]) :
    ∃ last, s.popOutbound.2 = { s with lastOutput := last, outbound := [] } := by
  have hn : s.nextOutput.1 ≠ none := by
    rw [Ne, Session.nextOutput_eq_none, h]
    exact List.cons_ne_nil f []
  rcases Session.nextOutput_cases s with hc | ⟨g, s', hc, ⟨last, outbound, rfl⟩, pre, post, hq, ho, -⟩
  · exact absurd (congrArg Prod.fst hc) hn
  · rw [h] at hq
    obtain ⟨rfl, rfl⟩ : pre = [] ∧ post = [] := by
      cases pre <;> simp_all
    simp only [List.append_nil] at ho
    exact ⟨last, by rw [Session.popOutbound, hc, ho]⟩

theorem Party.probe_calm {p : Party} (h : p.session.Calm) {now : Instant}
    (hnow : now + 1 ≤ instantMax) :
    (p.probe now).session.Calm ∧
      (p.probe now).session.events.length = p.session.events.length + 1 := by
  obtain ⟨f, lease, resources, -, hlim, hping⟩ := h.ping (Vector.replicate 8 0) hnow
  obtain ⟨last, hpop⟩ := Session.popOutbound_single (s := (p.session.ping (Vector.replicate 8 0) 1 now).2)
    (f := f.leased lease) (by rw [hping])
  have hlist := FiniteMap.toList_insert_of_isEmpty h.pings (Vector.replicate 8 0) (now, now + 1)
  have hs : (p.probe now).session = ({ p.session with
      resources := { resources with outboundUsed := 0 }, lastOutput := last, outbound := []
      pings := p.session.pings.insert (Vector.replicate 8 0) (now, now + 1) } : Session).tick
        (now + 1) := by
    rw [hping] at hpop
    simp only [probe, run, after, hping]
    rw [hpop]
  have hroom := h.room
  rw [hs]
  refine ⟨⟨h.closed, ?_, rfl, rfl, by rw [← hlim] at hroom; exact hroom⟩, ?_⟩
  · have hsize : (p.session.pings.insert (Vector.replicate 8 0) (now, now + 1)).size = 1 := by
      rw [← Std.TreeMap.length_toList, hlist]
      rfl
    simp [Session.tick, hlist, Std.TreeMap.isEmpty_eq_size_eq_zero, Std.TreeMap.size_erase, hsize]
  · simp [Session.tick, hlist]

def Party.UnreadStep (p p' : Party) : Prop :=
  ∃ c, p.Enabled c ∧ (∀ owner, c ≠ .popStreamEvent owner) ∧ c ≠ .popEvent ∧ p' = p.run c

theorem Party.probe_steps (p : Party) (now : Instant) :
    ReflTransGen UnreadStep p (p.probe now) := by
  have hstep : ∀ (q : Party) (c : Call), q.Enabled c → (∀ owner, c ≠ .popStreamEvent owner) →
      c ≠ .popEvent → UnreadStep q (q.run c) := fun q c he hs hp => ⟨c, he, hs, hp, rfl⟩
  have hping := hstep p (.ping (Vector.replicate 8 0) 1 now) trivial (by simp) (by simp)
  have hpop := hstep (p.run (.ping (Vector.replicate 8 0) 1 now)) .popOutbound trivial (by simp)
    (by simp)
  exact (((ReflTransGen.single hping).tail hpop).tail
    (hstep _ (.budget 0) trivial (by simp) (by simp))).tail
    (hstep _ (.tick (now + 1)) trivial (by simp) (by simp))

theorem Party.probing_calm (n : Nat) : ReflTransGen UnreadStep Party.idle (Party.probing n) ∧
    (Party.probing n).session.Calm ∧ (Party.probing n).session.events.length = n + 1 := by
  induction n with
  | zero => exact ⟨.refl, ⟨rfl, rfl, rfl, rfl, by decide⟩, rfl⟩
  | succ n ih =>
    obtain ⟨hsteps, hcalm, hlen⟩ := ih
    have hnow : n % instantMax + 1 ≤ instantMax :=
      Nat.mod_lt n (by rw [instantMax]; omega)
    obtain ⟨hcalm', hlen'⟩ := Party.probe_calm hcalm hnow
    exact ⟨hsteps.trans (Party.probe_steps _ _), hcalm', by rw [probing, hlen', hlen]⟩

/-- Without the pacing no bound holds: unanswered pings alone exceed any number of
unread events, within valid limits. -/
theorem pings_exceed_any_event_bound :
    (TransportConfig.new Party.idle.session.resources.limits 1).isOk = true ∧
    ∀ bound : ResourceLimits → Nat, ∃ p, ReflTransGen Party.UnreadStep Party.idle p ∧
      bound Party.idle.session.resources.limits < p.session.events.length := by
  refine ⟨by decide, fun bound => ?_⟩
  obtain ⟨hsteps, -, hlen⟩ := Party.probing_calm (bound Party.idle.session.resources.limits)
  exact ⟨_, hsteps, by omega⟩

end TalkSphere
