import TalkSphere.Joint
import TalkSphere.Party

/-! Two sessions of opposite roles joined by two lossless FIFO channels. -/

namespace TalkSphere

open Relation (ReflTransGen)

structure Link where
  initiator : Party
  acceptor : Party
  toAcceptor : List WireFrame
  toInitiator : List WireFrame

/-- One party acts: a local call, a frame leaving for the peer, or the next frame
of the peer arriving. `outgoing` and `incoming` are its two channels. -/
inductive Turn : Party → List WireFrame → List WireFrame →
    Party → List WireFrame → List WireFrame → Prop
  | call {p : Party} {outgoing incoming : List WireFrame} (c : Call) (hc : c.isLocal = true)
      (he : p.Enabled c) (ht : p.Timely c) : Turn p outgoing incoming (p.run c) outgoing incoming
  | emit {p : Party} {outgoing incoming : List WireFrame} {f : WireFrame}
      (hf : p.session.popOutbound.1 = some f) :
      Turn p outgoing incoming (p.run .popOutbound) (outgoing ++ [f]) incoming
  | deliver {p : Party} {outgoing incoming : List WireFrame} (f : WireFrame) (registry : Registry)
      (now : Instant) (ht : p.clock ≤ now) :
      Turn p outgoing (f :: incoming) (p.run (.receive ⟨f⟩ registry now)) outgoing incoming

inductive Link.Step : Link → Link → Prop
  | initiator {l : Link} {p : Party} {outgoing incoming : List WireFrame}
      (h : Turn l.initiator l.toAcceptor l.toInitiator p outgoing incoming) :
      Step l ⟨p, l.acceptor, outgoing, incoming⟩
  | acceptor {l : Link} {p : Party} {outgoing incoming : List WireFrame}
      (h : Turn l.acceptor l.toInitiator l.toAcceptor p outgoing incoming) :
      Step l ⟨l.initiator, p, incoming, outgoing⟩

/-- A new session of either role, with any handle, identities, limits and shared counters. -/
def Session.Fresh (role : ConnectionRole) (s : Session) : Prop :=
  ∃ handle mine peers resources,
    s = (Session.withHandle handle role mine peers).setResources resources

structure Link.Initial (l : Link) : Prop where
  initiator : ∃ s clock, s.Fresh .initiator ∧ l.initiator = Party.start s clock
  acceptor : ∃ s clock, s.Fresh .acceptor ∧ l.acceptor = Party.start s clock
  toAcceptor : l.toAcceptor = []
  toInitiator : l.toInitiator = []

/-- The invariant of the system, from the point of view of one party. -/
structure Party.Joined (J : Endpoint → List Message → List Message → Endpoint → Prop)
    (p : Party) (outgoing incoming : List WireFrame) (q : Party) : Prop where
  sound : p.session.Sound
  peer_sound : q.session.Sound
  punctual : p.Punctual
  peer_punctual : q.Punctual
  joint : J p.endpoint (outgoing.map WireFrame.message) (incoming.map WireFrame.message)
    q.endpoint

namespace Party

variable {p p' q : Party} {outgoing incoming outgoing' incoming' : List WireFrame}
  {J : Endpoint → List Message → List Message → Endpoint → Prop}

theorem Joined.symm (hJ : ∀ a out inc b, J a out inc b → J b inc out a)
    (h : Joined J p outgoing incoming q) : Joined J q incoming outgoing p :=
  ⟨h.peer_sound, h.sound, h.peer_punctual, h.punctual, hJ _ _ _ _ h.joint⟩

theorem endpoint_receive (p : Party) (f : VerifiedFrame) (registry : Registry) (now : Instant) :
    (p.run (.receive f registry now)).endpoint =
      (p.session.receive f registry now).2.endpoint p.history :=
  endpoint_after p _

theorem Joined.deliver (hJ : Lasting J) {f : WireFrame}
    (h : Joined J p outgoing (f :: incoming) q) (hopen : p.session.closed = false)
    (registry : Registry) {now : Instant} (ht : p.clock ≤ now) :
    ((p.session.receive ⟨f⟩ registry now).1 = .ok () ∨
      (p.session.receive ⟨f⟩ registry now).1 = .error .capacity) ∧
    J (p.run (.receive ⟨f⟩ registry now)).endpoint (outgoing.map WireFrame.message)
      (incoming.map WireFrame.message) q.endpoint := by
  have hr := ready h.sound
  rw [endpoint_receive]
  obtain ⟨-, ⟨hres, hcl, hm⟩ | ⟨result, s', hreads, hres, hm, -⟩⟩ :=
    Session.receive_reads hr hopen ⟨f⟩ registry now
  · exact ⟨.inr hres, hJ.lose (hJ.locals h.joint hm.2) hcl⟩
  · have htick := hJ.locals h.joint (Session.tick_moves hr now).2
    have hopen' : ((p.session.tick now).endpoint p.history).closed = false := hopen
    rw [hres]
    cases hreads with
    | served hc hl hok => exact ⟨hok, hJ.locals (hJ.locals (hJ.consume htick hopen' hc) hl) hm.2⟩
    | violated hi => exact absurd hi ((hJ.joint htick).legal hopen')
    | @stale token started deadline _ hp hn =>
      have hstart := h.punctual token _ (Session.tick_pings _ _ _ _ hp)
      have hlt := hn now rfl
      exact absurd (lt_of_le_of_lt (hstart.trans ht) hlt) (lt_irrefl _)

theorem Joined.turn (hJ : Lasting J) (h : Joined J p outgoing incoming q)
    (ht : Turn p outgoing incoming p' outgoing' incoming') :
    Joined J p' outgoing' incoming' q := by
  cases ht with
  | call c hc he ht =>
    obtain ⟨hs, hl⟩ := run_local h.sound hc
    exact ⟨hs, h.peer_sound, h.punctual.run h.sound ht, h.peer_punctual, hJ.locals h.joint hl⟩
  | emit hf =>
    obtain ⟨hs, ⟨hn, -⟩ | ⟨g, hg, he, hp⟩⟩ := run_popOutbound h.sound
    · rw [hf] at hn
      cases hn
    · rw [hf] at hg
      cases hg
      refine ⟨hs, h.peer_sound, h.punctual.run h.sound (by simp [Timely, Call.now?]),
        h.peer_punctual, ?_⟩
      rw [he, List.map_append]
      exact hJ.emit h.joint hp
  | deliver f registry now ht =>
    have hs := (run_receive h.sound ⟨f⟩ registry now).1
    refine ⟨hs, h.peer_sound, h.punctual.run h.sound ?_, h.peer_punctual, ?_⟩
    · intro t hnow
      cases hnow
      exact ht
    · by_cases hc : p.session.closed = true
      · have he : (p.run (.receive ⟨f⟩ registry now)).endpoint = p.endpoint := by
          rw [endpoint_receive, Session.receive, if_pos hc]
          rfl
        rw [he]
        exact hJ.lose h.joint hc
      · exact (h.deliver hJ (Bool.eq_false_iff.mpr hc) registry ht).2

end Party

theorem Session.Fresh.sound {role : ConnectionRole} {s : Session} (h : s.Fresh role) :
    s.Sound ∧ s.closed = false := by
  obtain ⟨handle, mine, peers, resources, rfl⟩ := h
  exact ⟨⟨by simp [setResources, withHandle], fun _ id => by simp [setResources, withHandle],
    fun _ => rfl, StreamIds.new_valid role⟩, rfl⟩

theorem Session.Fresh.own {role : ConnectionRole} {s : Session} (h : s.Fresh role)
    (clock : Instant) : (Party.start s clock).endpoint.Own ∧
      (Party.start s clock).endpoint.Clean ∧ (Party.start s clock).Punctual := by
  obtain ⟨handle, mine, peers, resources, rfl⟩ := h
  refine ⟨⟨StreamIds.new_valid role, ?_, ?_, ?_, fun _ i => ?_, .inl rfl⟩, ?_, ?_⟩ <;>
    simp [Party.endpoint, Party.start, Session.endpoint, setResources, withHandle, Endpoint.Clean,
      Party.Punctual, Party.history]

theorem fresh_direction {s s' : Session} {role : ConnectionRole} (h : s.Fresh role)
    (h' : s'.Fresh role.opposite) (clock clock' : Instant) :
    Direction (Party.start s clock).endpoint [] (Party.start s' clock').endpoint := by
  obtain ⟨handle, mine, peers, resources, rfl⟩ := h
  obtain ⟨handle', mine', peers', resources', rfl⟩ := h'
  have hz : (0 : UInt32) ≤ 0 := UInt32.le_refl _
  refine ⟨by cases role <;> rfl, hz, fun _ => ?_⟩
  refine ⟨⟨[], rfl, fun _ => rfl⟩, .nil, by simp [way, Party.endpoint, Party.start,
    Session.endpoint, Session.setResources, Session.withHandle], ?_, ?_, ?_, .nil, ?_, ?_⟩ <;>
    simp [way, Party.endpoint, Party.start, Session.endpoint, Session.setResources,
      Session.withHandle]

theorem Link.Initial.joint {l : Link} (h : l.Initial) :
    Joint l.initiator.endpoint [] [] l.acceptor.endpoint := by
  obtain ⟨s, clock, hs, hp⟩ := h.initiator
  obtain ⟨s', clock', hs', hq⟩ := h.acceptor
  rw [hp, hq]
  obtain ⟨ho, hc, -⟩ := hs.own clock
  obtain ⟨ho', hc', -⟩ := hs'.own clock'
  exact ⟨ho, ho', fresh_direction hs hs' _ _, fresh_direction hs' hs _ _, hc, hc'⟩

section

variable {J : Endpoint → List Message → List Message → Endpoint → Prop} {l₀ l : Link}

theorem Link.Initial.joined (h : l.Initial)
    (hj : J l.initiator.endpoint [] [] l.acceptor.endpoint) :
    Party.Joined J l.initiator l.toAcceptor l.toInitiator l.acceptor := by
  obtain ⟨s, clock, hs, hp⟩ := h.initiator
  obtain ⟨s', clock', hs', hq⟩ := h.acceptor
  rw [hp, hq] at hj ⊢
  rw [h.toAcceptor, h.toInitiator]
  exact ⟨hs.sound.1, hs'.sound.1, (hs.own clock).2.2, (hs'.own clock').2.2, hj⟩

theorem Link.lasts (hJ : Lasting J) (hsymm : ∀ a out inc b, J a out inc b → J b inc out a)
    (h : Party.Joined J l₀.initiator l₀.toAcceptor l₀.toInitiator l₀.acceptor)
    (hl : ReflTransGen Link.Step l₀ l) :
    Party.Joined J l.initiator l.toAcceptor l.toInitiator l.acceptor := by
  induction hl with
  | refl => exact h
  | tail _ hstep ih =>
    cases hstep with
    | initiator ht => exact ih.turn hJ ht
    | acceptor ht => exact ((ih.symm hsymm).turn hJ ht).symm hsymm

theorem Link.joined (hJ : Lasting J) (hsymm : ∀ a out inc b, J a out inc b → J b inc out a)
    (h₀ : l₀.Initial)
    (hj : J l₀.initiator.endpoint [] [] l₀.acceptor.endpoint) (hl : ReflTransGen Link.Step l₀ l) :
    Party.Joined J l.initiator l.toAcceptor l.toInitiator l.acceptor :=
  Link.lasts hJ hsymm (h₀.joined hj) hl

end

def StreamHandle.sample : StreamHandle := ⟨⟨0⟩, ⟨0⟩, 1, by decide⟩

def Link.sample : Link :=
  let resources : Resources := { limits := ⟨1, 2, 400, 16⟩ }
  let identity : IdentityId := ⟨Vector.replicate 32 0⟩
  { initiator := Party.start
      ((Session.withHandle ⟨⟨0⟩⟩ .initiator identity identity).setResources resources) 0
    acceptor := Party.start
      ((Session.withHandle ⟨⟨1⟩⟩ .acceptor identity identity).setResources resources) 0
    toAcceptor := []
    toInitiator := [] }

def Registry.sample : Registry := ⟨[(⟨"chat", 1⟩, ⟨0⟩)]⟩

theorem Link.sample_initial : Link.sample.Initial :=
  ⟨⟨_, _, ⟨_, _, _, _, rfl⟩, rfl⟩, ⟨_, _, ⟨_, _, _, _, rfl⟩, rfl⟩, rfl, rfl⟩

section

variable (l : Link)

def Link.callInitiator (c : Call) : Link := { l with initiator := l.initiator.run c }

def Link.callAcceptor (c : Call) : Link := { l with acceptor := l.acceptor.run c }

def Link.emitInitiator : Link :=
  { l with
    initiator := l.initiator.run .popOutbound
    toAcceptor := l.toAcceptor ++ l.initiator.session.popOutbound.1.toList }

def Link.emitAcceptor : Link :=
  { l with
    acceptor := l.acceptor.run .popOutbound
    toInitiator := l.toInitiator ++ l.acceptor.session.popOutbound.1.toList }

def Link.deliverAcceptor (registry : Registry) (now : Instant) : Link :=
  match l.toAcceptor with
  | [] => l
  | f :: rest =>
    { l with
      acceptor := l.acceptor.run (.receive ⟨f⟩ registry now)
      toAcceptor := rest }

variable {l}

theorem Link.callInitiator_step {c : Call} (hc : c.isLocal = true) (he : l.initiator.Enabled c)
    (ht : l.initiator.Timely c) : Step l (l.callInitiator c) :=
  .initiator (.call c hc he ht)

theorem Link.callAcceptor_step {c : Call} (hc : c.isLocal = true) (he : l.acceptor.Enabled c)
    (ht : l.acceptor.Timely c) : Step l (l.callAcceptor c) :=
  .acceptor (.call c hc he ht)

theorem Link.emitInitiator_step (h : l.initiator.session.popOutbound.1.isSome = true) :
    Step l l.emitInitiator := by
  obtain ⟨f, hf⟩ := Option.isSome_iff_exists.mp h
  simp only [emitInitiator, hf, Option.toList_some]
  exact .initiator (.emit hf)

theorem Link.emitAcceptor_step (h : l.acceptor.session.popOutbound.1.isSome = true) :
    Step l l.emitAcceptor := by
  obtain ⟨f, hf⟩ := Option.isSome_iff_exists.mp h
  simp only [emitAcceptor, hf, Option.toList_some]
  exact .acceptor (.emit hf)

theorem Link.deliverAcceptor_steps (registry : Registry) (now : Instant)
    (ht : l.acceptor.clock ≤ now) : ReflTransGen Step l (l.deliverAcceptor registry now) := by
  unfold deliverAcceptor
  split
  case h_1 => exact .refl
  case h_2 f rest hf =>
    refine .single (.acceptor ?_)
    rw [hf]
    exact .deliver f registry now ht

end

def Link.opening : Link := (Link.sample.callInitiator (.open_ .sample ⟨0⟩)).emitInitiator

theorem Link.opening_reached : ReflTransGen Link.Step Link.sample Link.opening :=
  .tail (.single (callInitiator_step (c := .open_ .sample ⟨0⟩) rfl trivial
    (by simp [Party.Timely, Call.now?]))) (emitInitiator_step (by decide))

/-- Two honest sessions never violate each other's protocol. -/
theorem honest_sessions_never_violate {l₀ l : Link} (h₀ : l₀.Initial)
    (hl : ReflTransGen Link.Step l₀ l) :
    (∀ f rest registry now, l.toAcceptor = f :: rest → l.acceptor.session.closed = false →
      l.acceptor.clock ≤ now →
      (l.acceptor.session.receive ⟨f⟩ registry now).1 = .ok () ∨
      (l.acceptor.session.receive ⟨f⟩ registry now).1 = .error .capacity) ∧
    (∀ f rest registry now, l.toInitiator = f :: rest → l.initiator.session.closed = false →
      l.initiator.clock ≤ now →
      (l.initiator.session.receive ⟨f⟩ registry now).1 = .ok () ∨
      (l.initiator.session.receive ⟨f⟩ registry now).1 = .error .capacity) ∧
    ∀ stream f, .streamClosed stream (.failed f) ∈ l.initiator.log ++ l.acceptor.log →
      f.code ≠ .streamState := by
  have hJ := Joint.lasting
  have hsymm : ∀ a out inc b, Joint a out inc b → Joint b inc out a := fun _ _ _ _ => Joint.symm
  have hj := Link.joined hJ hsymm h₀ h₀.joint hl
  refine ⟨fun f rest registry now hf hopen ht => ?_, fun f rest registry now hf hopen ht => ?_,
    fun stream f hf => ?_⟩
  · rw [hf] at hj
    exact ((hj.symm hsymm).deliver hJ hopen registry ht).1
  · rw [hf] at hj
    exact (hj.deliver hJ hopen registry ht).1
  · rcases List.mem_append.mp hf with hf | hf
    · exact hj.joint.clean stream f (by rwa [Party.endpoint_log])
    · exact hj.joint.peer_clean stream f (by rwa [Party.endpoint_log])

theorem honest_sessions_opening : ∃ f, Link.opening.toAcceptor = [f] ∧
    ((Link.opening.acceptor.session.receive ⟨f⟩ .sample 0).1 = .ok () ∨
      (Link.opening.acceptor.session.receive ⟨f⟩ .sample 0).1 = .error .capacity) := by
  have hlen : Link.opening.toAcceptor.length = 1 := by decide
  obtain ⟨f, hf⟩ := List.length_eq_one_iff.mp hlen
  exact ⟨f, hf, (honest_sessions_never_violate Link.sample_initial Link.opening_reached).1
    f [] .sample 0 hf (by decide) (by decide)⟩

end TalkSphere
