import TalkSphere.Goaway
import TalkSphere.Link

/-! Draining on a link: what the two sides agree on about refused streams. -/

namespace TalkSphere

open Std (TreeMap)
open Relation (ReflTransGen)

namespace Session

variable {s : Session}

theorem terminate_streams (s : Session) (id : UInt32) (outcome : StreamOutcome) (i : UInt32) :
    (s.terminate id outcome).streams[i]? = if i = id then none else s.streams[i]? := by
  unfold terminate
  simp only
  split
  case h_1 hn =>
    split
    case isTrue he => rw [he]; exact hn
    case isFalse => rfl
  case h_2 =>
    exact (congrFun (FiniteMap.lookup_erase s.streams id) i).trans (Function.update_apply ..)

theorem foldl_terminate_streams (outcome : StreamOutcome) (l : List UInt32) (s : Session)
    (i : UInt32) : (l.foldl (fun s id => s.terminate id outcome) s).streams[i]? =
      if i ∈ l then none else s.streams[i]? := by
  induction l generalizing s with
  | nil => simp
  | cons id l ih =>
    rw [List.foldl_cons, ih, terminate_streams]
    by_cases hi : i = id <;> simp [hi]

theorem drain_streams (s : Session) (reason : ShutdownReason) :
    (s.drain reason).2.streams = s.streams := by
  have ha := s.drain_answer reason
  generalize s.drain reason = out at ha ⊢
  cases ha with
  | refused => rfl
  | served a done => cases done <;> rfl

theorem receiveGoaway_streams {payload : List UInt8} {g : GoAway}
    (hg : GoAway.decode payload = .ok g) (hok : (s.receiveGoaway payload).1 = .ok ())
    (i : UInt32) : (s.receiveGoaway payload).2.streams[i]? =
      if s.ids.isLocal i ∧ g.lastAcceptedRemoteStreamId < i then none else s.streams[i]? := by
  unfold receiveGoaway at hok ⊢
  simp only [hg] at hok ⊢
  split at hok
  case isTrue => cases hok
  case isFalse hv =>
  rw [if_neg hv, drain_streams, foldl_terminate_streams]
  have hout : ∀ s' : Session, s'.streams = s.streams → s'.ids = s.ids →
      (if i ∈ s'.refusedBy g.lastAcceptedRemoteStreamId then none else s'.streams[i]?) =
        if s.ids.isLocal i ∧ g.lastAcceptedRemoteStreamId < i then none else s.streams[i]? := by
    intro s' hst hids
    simp only [mem_refusedBy, hst, hids]
    cases s.streams[i]? <;> simp
  split
  case isTrue => exact hout _ rfl rfl
  case isFalse => exact hout _ rfl rfl

theorem receive_goaway_streams {f : WireFrame} {g : GoAway}
    (ht : f.header.frameType = .goAway) (hg : GoAway.decode f.payload = .ok g)
    {registry : Registry} {now : Instant} (hok : (s.receive ⟨f⟩ registry now).1 = .ok ())
    (i : UInt32) : (s.receive ⟨f⟩ registry now).2.streams[i]? =
      if s.ids.isLocal i ∧ g.lastAcceptedRemoteStreamId < i then none else s.streams[i]? := by
  have h0 : f.header.streamId = 0 := by
    have hv := f.header.streamId_valid
    simpa [ht, FrameType.validStreamId] using hv
  have hparts : (s.tick now).receiveParts f.header.frameType f.header.streamId f.payload registry =
      (s.tick now).receiveGoaway f.payload := by
    rw [receiveParts, if_pos ⟨ht, h0⟩]
  have hd := s.receive_dispatched ⟨f⟩ registry now
  generalize s.receive ⟨f⟩ registry now = out at hd hok ⊢
  cases hd with
  | late => cases hok
  | crowded => cases hok
  | failed => cases hok
  | served live room parts =>
    rw [hparts] at parts
    have hs := receiveGoaway_streams (s := s.tick now) hg (by rw [parts]) i
    rw [parts] at hs
    exact hs

end Session

/-- `last` is the greatest id of a peer's stream this party has reported, zero if none. -/
def Party.Greatest (p : Party) (last : UInt32) : Prop :=
  (∀ i, Opened p.log i → p.session.ids.isLocal i = false → i ≤ last) ∧
    (last = 0 ∨ Opened p.log last ∧ p.session.ids.isLocal last = false)

/-- What `a` and `b` agree on about drains; `later` is any later state of `b`. -/
structure Party.Agrees (a b : Party) (toB toA : List WireFrame) (later : Party) : Prop where
  refused : ∀ stream, .streamClosed stream (.failed ⟨.peer, .refused⟩) ∈ a.log →
    ¬ Opened later.log stream.wireId
  announced : ∀ f ∈ toA ++ b.session.outbound, f.header.frameType = .goAway →
    ∃ g, GoAway.decode f.payload = .ok g ∧ later.Greatest g.lastAcceptedRemoteStreamId
  kept : ∀ f rest registry now, toA = f :: rest → f.header.frameType = .goAway →
    a.session.closed = false → a.clock ≤ now →
    ((a.session.receive ⟨f⟩ registry now).1 = .error .capacity ∧
        (a.session.receive ⟨f⟩ registry now).2.closed = true) ∨
      ((a.session.receive ⟨f⟩ registry now).1 = .ok () ∧
        ∀ i, Opened later.log i →
          (a.session.receive ⟨f⟩ registry now).2.streams[i]? = a.session.streams[i]?)
  ordered : b.session.closed = false →
    (toB ++ a.session.outbound).Pairwise fun f f' =>
      f.header.frameType = .goAway → f'.header.frameType ≠ .open_
  drained : ∀ f rest, toB = f :: rest → f.header.frameType = .open_ →
    b.session.closed = false → b.session.peerGoaway = none

namespace Party

variable {a b later : Party} {toB toA : List WireFrame}

theorem mem_way {p : Party} {channel : List WireFrame} {f : WireFrame}
    (hf : f ∈ channel ++ p.session.outbound) :
    f.message ∈ way p.endpoint (channel.map WireFrame.message) := by
  rw [way, show p.endpoint.queue = p.session.outbound.map WireFrame.message from rfl,
    ← List.map_append]
  exact List.mem_map_of_mem hf

theorem goaway_message {f : WireFrame} (ht : f.header.frameType = .goAway)
    (hh : f.message.Honest) : ∃ g, GoAway.decode f.payload = .ok g ∧
      f.message = .goAway g.lastAcceptedRemoteStreamId g.code := by
  simp only [WireFrame.message, ht] at hh ⊢
  cases hd : GoAway.decode f.payload with
  | error e =>
    rw [hd] at hh
    cases hh
  | ok g => exact ⟨g, rfl, rfl⟩

theorem message_isOpen {f : WireFrame} (ht : f.header.frameType = .open_) :
    f.message.isOpen = true := by
  simp [WireFrame.message, ht, Message.isOpen]

theorem Greatest.of_frozen {p : Party} {channel : List Message} {q : Endpoint} {last : UInt32}
    (hn : Notices p.endpoint channel q) (hf : p.endpoint.Frozen last) : p.Greatest last := by
  have hacc : p.endpoint.acceptedRemote = last := hf.2
  refine ⟨fun i hi hl => hacc ▸ hn.accepted_le i ?_ hl, hacc ▸ hn.accepted.imp_right fun h => ?_⟩
  · rwa [endpoint_log]
  · rwa [endpoint_log] at h

theorem Agrees.of_joined (h : Joined Notified a toB toA b)
    (hstable : ∀ P, Endpoint.Stable P → P b.endpoint → P later.endpoint)
    (hlater : ∃ channel q, Notices later.endpoint channel q) : a.Agrees b toB toA later := by
  obtain ⟨channel, q, hn⟩ := hlater
  have hback := h.joint.back
  have hannounced : ∀ f ∈ toA ++ b.session.outbound, f.header.frameType = .goAway →
      ∃ g, GoAway.decode f.payload = .ok g ∧ later.Greatest g.lastAcceptedRemoteStreamId := by
    intro f hf ht
    have hm := mem_way hf
    obtain ⟨g, hg, he⟩ := goaway_message ht (hback.honest _ hm)
    rw [he] at hm
    obtain ⟨hs, hl⟩ := hback.announced _ _ hm
    exact ⟨g, hg, .of_frozen hn (hstable _ (Endpoint.Frozen.stable _) ⟨hs, hl.symm⟩)⟩
  refine ⟨fun stream hm => ?_, hannounced, fun f rest registry now hf ht hopen hclock => ?_,
    fun hopen => ?_, fun f rest hf ht hopen => ?_⟩
  · have hb := hback.refused stream (by rwa [endpoint_log])
    have hl := (hstable _ (Endpoint.Barred.stable _) hb).unopened
    rwa [endpoint_log] at hl
  · obtain ⟨g, hg, hgreat⟩ := hannounced f (by simp [hf]) ht
    rw [hf] at h
    refine (h.deliver Notified.lasting hopen registry hclock).1.symm.imp
      (fun hfull => ⟨hfull, Session.receive_error_closed hopen hfull⟩) fun hok =>
        ⟨hok, fun i hi => ?_⟩
    rw [Session.receive_goaway_streams ht hg hok, if_neg]
    rintro ⟨hloc, hlt⟩
    have hodd : later.session.ids.localOdd = b.session.ids.localOdd :=
      hstable _ (Endpoint.stable_parity _) rfl
    have hpar : a.session.ids.localOdd = !b.session.ids.localOdd := h.joint.joint.back.parity
    rw [StreamIds.isLocal_eq, hpar, StreamIds.ofParity_not, ← hodd] at hloc
    exact UInt32.not_lt.mpr (hgreat.1 i hi hloc.2) hlt
  · have hfin := (h.joint.joint.there.live hopen).final
    have hway : way a.endpoint (toB.map WireFrame.message) =
        (toB ++ a.session.outbound).map WireFrame.message := (List.map_append ..).symm
    rw [hway, List.pairwise_map] at hfin
    refine hfin.imp_of_mem fun {f f'} hf _ hff ht ht' => ?_
    obtain ⟨g, -, he⟩ := goaway_message ht (h.joint.there.honest _ (mem_way hf))
    have hopen' := (hff (by rw [he]; rfl)).2
    rw [message_isOpen ht'] at hopen'
    cases hopen'
  · have hm : f.message ∈ way a.endpoint (toB.map WireFrame.message) := mem_way (by simp [hf])
    have hdr := (h.joint.joint.there.live hopen).drained
    by_contra hp
    have hno := (hdr (Option.isSome_iff_ne_none.mpr hp)).2 _ hm
    rw [message_isOpen ht] at hno
    cases hno

end Party

theorem Session.Fresh.notices {s s' : Session} {role role' : ConnectionRole} (h : s.Fresh role)
    (h' : s'.Fresh role') (clock clock' : Instant) :
    Notices (Party.start s clock).endpoint [] (Party.start s' clock').endpoint := by
  obtain ⟨handle, mine, peers, resources, rfl⟩ := h
  obtain ⟨handle', mine', peers', resources', rfl⟩ := h'
  constructor <;>
    simp [way, Opened, Party.start, Party.endpoint, Session.endpoint, setResources, withHandle,
      Party.history]

theorem Link.Initial.notified {l : Link} (h : l.Initial) :
    Notified l.initiator.endpoint [] [] l.acceptor.endpoint := by
  have hj := h.joint
  obtain ⟨s, clock, hs, hp⟩ := h.initiator
  obtain ⟨s', clock', hs', hq⟩ := h.acceptor
  rw [hp, hq] at hj ⊢
  exact ⟨hj, hs.notices hs' _ _, hs'.notices hs _ _⟩

section

variable {l₀ l l' : Link}

theorem Party.Joined.stable_turn {p p' q : Party}
    {outgoing incoming outgoing' incoming' : List WireFrame} {P : Endpoint → Prop}
    (hP : Endpoint.Stable P) (h : Joined Joint p outgoing incoming q)
    (ht : Turn p outgoing incoming p' outgoing' incoming') (hp : P p.endpoint) : P p'.endpoint := by
  have hj : Joined (fun a out inc b => Joint a out inc b ∧ P a) p outgoing incoming q :=
    { h with joint := ⟨h.joint, hp⟩ }
  exact (hj.turn hP.lasting ht).joint.2

theorem Link.stable {P : Endpoint → Prop} (hP : Endpoint.Stable P)
    (h : Party.Joined Joint l.initiator l.toAcceptor l.toInitiator l.acceptor)
    (hl : ReflTransGen Link.Step l l') :
    (P l.initiator.endpoint → P l'.initiator.endpoint) ∧
      (P l.acceptor.endpoint → P l'.acceptor.endpoint) := by
  have hsymm : ∀ a out inc b, Joint a out inc b → Joint b inc out a := fun _ _ _ _ => Joint.symm
  induction hl with
  | refl => exact ⟨fun h => h, fun h => h⟩
  | tail hl hstep ih =>
    have hj := Link.lasts Joint.lasting hsymm h hl
    cases hstep with
    | initiator ht => exact ⟨fun hp => hj.stable_turn hP ht (ih.1 hp), ih.2⟩
    | acceptor ht => exact ⟨ih.1, fun hp => (hj.symm hsymm).stable_turn hP ht (ih.2 hp)⟩

/-- Both sides agree on which streams a drain refuses, from any state on. -/
theorem goaway_agreement (h₀ : l₀.Initial) (hl : ReflTransGen Link.Step l₀ l)
    (hl' : ReflTransGen Link.Step l l') :
    l.initiator.Agrees l.acceptor l.toAcceptor l.toInitiator l'.acceptor ∧
      l.acceptor.Agrees l.initiator l.toInitiator l.toAcceptor l'.initiator := by
  have hsymm : ∀ a out inc b, Notified a out inc b → Notified b inc out a :=
    fun _ _ _ _ => Notified.symm
  have hj := Link.joined Notified.lasting hsymm h₀ h₀.notified hl
  have hj' := (Link.lasts Notified.lasting hsymm hj hl').joint
  have hjoint : Party.Joined Joint l.initiator l.toAcceptor l.toInitiator l.acceptor :=
    { hj with joint := hj.joint.joint }
  constructor
  · exact .of_joined hj (fun P hP => (Link.stable hP hjoint hl').2) ⟨_, _, hj'.back⟩
  · exact .of_joined (hj.symm hsymm) (fun P hP => (Link.stable hP hjoint hl').1) ⟨_, _, hj'.there⟩

end

def Link.draining : Link :=
  ((Link.opening.deliverAcceptor .sample 0).callAcceptor (.drain .normal)).emitAcceptor

theorem Link.draining_reached : ReflTransGen Link.Step Link.sample Link.draining := by
  have hopen := opening_reached.trans (deliverAcceptor_steps .sample 0 (by decide))
  exact (hopen.tail (callAcceptor_step (c := .drain .normal) rfl trivial
    (by simp [Party.Timely, Call.now?]))).tail (emitAcceptor_step (by decide))

theorem goaway_agreement_draining : ∃ f, Link.draining.toInitiator = [f] ∧
    f.header.frameType = .goAway ∧ Opened Link.draining.acceptor.log 1 ∧
    (Link.draining.initiator.session.receive ⟨f⟩ .sample 0).2.streams[(1 : UInt32)]? =
      Link.draining.initiator.session.streams[(1 : UInt32)]? := by
  have hlen : Link.draining.toInitiator.length = 1 := by decide
  obtain ⟨f, hf⟩ := List.length_eq_one_iff.mp hlen
  have hhead : Link.draining.toInitiator.head?.map (·.header.frameType) = some .goAway ∧
      ∀ f ∈ Link.draining.toInitiator.head?,
        (Link.draining.initiator.session.receive ⟨f⟩ .sample 0).1 ≠ .error .capacity := by decide
  rw [hf] at hhead
  have ht : f.header.frameType = .goAway := Option.some.inj hhead.1
  have hopened : Opened Link.draining.acceptor.log 1 := by
    refine ⟨Link.draining.acceptor.session.context, ⟨⟨1⟩, ⟨0⟩, 1, by decide⟩, ⟨"chat", 1⟩, ?_, rfl⟩
    decide
  refine ⟨f, hf, ht, hopened, ?_⟩
  have hkept := (goaway_agreement Link.sample_initial Link.draining_reached .refl).1.kept
    f [] .sample 0 hf ht (by decide) (by decide)
  exact (hkept.resolve_left (fun h => hhead.2 f rfl h.1)).2 1 hopened

/-- The same state after other connections have filled the shared outbound budget. -/
def Link.squeezed : Link := Link.draining.callInitiator (.budget 380)

/-- Receiving that GOAWAY then closes the session, and with it a stream the peer accepted. -/
theorem goaway_can_end_accepted_stream : Link.sample.Initial ∧
    ReflTransGen Link.Step Link.sample Link.squeezed ∧
    Opened Link.squeezed.acceptor.log 1 ∧
    ∃ f, Link.squeezed.toInitiator = [f] ∧ f.header.frameType = .goAway ∧
      Link.squeezed.initiator.session.streams.contains 1 = true ∧
      (Link.squeezed.initiator.session.receive ⟨f⟩ .sample 0).1 = .error .capacity ∧
      (Link.squeezed.initiator.session.receive ⟨f⟩ .sample 0).2.streams.contains 1 = false := by
  have hreached := Link.draining_reached.tail (Link.callInitiator_step (c := .budget 380) rfl trivial
    (by simp [Party.Timely, Call.now?]))
  refine ⟨Link.sample_initial, hreached, ?_, ?_⟩
  · refine ⟨Link.squeezed.acceptor.session.context, ⟨⟨1⟩, ⟨0⟩, 1, by decide⟩, ⟨"chat", 1⟩, ?_, rfl⟩
    decide
  · have hlen : Link.squeezed.toInitiator.length = 1 := by decide
    obtain ⟨f, hf⟩ := List.length_eq_one_iff.mp hlen
    have hhead : ∀ f ∈ Link.squeezed.toInitiator, f.header.frameType = .goAway ∧
        Link.squeezed.initiator.session.streams.contains 1 = true ∧
        (Link.squeezed.initiator.session.receive ⟨f⟩ .sample 0).1 = .error .capacity ∧
        (Link.squeezed.initiator.session.receive ⟨f⟩ .sample 0).2.streams.contains 1 = false := by
      decide
    exact ⟨f, hf, hhead f (by simp [hf])⟩

end TalkSphere
