import TalkSphere.CarriedReceiver
import TalkSphere.Link

/-! The bytes each side of a link receives, against the bytes the other side accepted. -/

namespace TalkSphere

open Relation (ReflTransGen)

theorem Session.Fresh.delivery {s s' : Session} {role role' : ConnectionRole} (h : s.Fresh role)
    (h' : s'.Fresh role') (clock clock' : Instant) (i : UInt32) :
    Delivery (Party.start s clock).endpoint [] (Party.start s' clock').endpoint i := by
  obtain ⟨handle, mine, peers, resources, rfl⟩ := h
  obtain ⟨handle', mine', peers', resources', rfl⟩ := h'
  constructor <;>
    simp [way, received, accepted, carried, trace, onStream, Event.stream?, Party.start,
      Party.endpoint, Session.endpoint, setResources, withHandle, Party.history]

theorem Link.Initial.transfer {l : Link} (h : l.Initial) :
    Transfer l.initiator.endpoint [] [] l.acceptor.endpoint := by
  have hj := h.joint
  obtain ⟨s, clock, hs, hp⟩ := h.initiator
  obtain ⟨s', clock', hs', hq⟩ := h.acceptor
  rw [hp, hq] at hj ⊢
  exact ⟨hj, hs.delivery hs' _ _, hs'.delivery hs _ _⟩

/-- What `receiver` has emitted for each stream, against what `sender` accepted for it. -/
def Party.Streams (sender receiver : Party) : Prop :=
  ∀ i, received i receiver.log <+: accepted i sender.sends ∧
    ∀ stream, stream.wireId = i → .remoteEnd stream ∈ receiver.log →
      received i receiver.log = accepted i sender.sends

theorem Party.Streams.of_delivery {p q : Party} {channel : List Message}
    (h : ∀ i, Delivery p.endpoint channel q.endpoint i) : p.Streams q := by
  intro i
  have hd := h i
  refine ⟨?_, fun stream hi hm => ?_⟩
  · have hle := hd.received_le
    rwa [Party.endpoint_log] at hle
  · have hin : .remoteEnd stream ∈ trace i q.endpoint.log := by
      rw [Party.endpoint_log]
      exact List.mem_filter.mpr ⟨hm, by simp [onStream, Event.stream?, hi]⟩
    have heq := (hd.finished ⟨stream, hin⟩).1
    rwa [Party.endpoint_log] at heq

/-- Each stream's bytes arrive in order, none is invented, and none is missing at the end. -/
theorem streams_deliver_what_was_sent {l₀ l : Link} (h₀ : l₀.Initial)
    (hl : ReflTransGen Link.Step l₀ l) :
    l.initiator.Streams l.acceptor ∧ l.acceptor.Streams l.initiator := by
  have hj := (Link.joined Transfer.lasting (fun _ _ _ _ => .symm) h₀ h₀.transfer hl).joint
  exact ⟨.of_delivery hj.there, .of_delivery hj.back⟩

def Link.sending : Link :=
  ((((Link.opening.deliverAcceptor .sample 0).callInitiator
    (.send ⟨0⟩ .sample [7, 8, 9])).emitInitiator.deliverAcceptor .sample 0).callInitiator
    (.end_ ⟨0⟩ .sample)).emitInitiator.deliverAcceptor .sample 0

theorem Link.sending_reached : ReflTransGen Link.Step Link.sample Link.sending := by
  have hopen := opening_reached.trans (deliverAcceptor_steps .sample 0 (by decide))
  have hsend := (hopen.tail (callInitiator_step (c := .send ⟨0⟩ .sample [7, 8, 9]) rfl trivial
    (by simp [Party.Timely, Call.now?]))).tail (emitInitiator_step (by decide))
  have hend := ((hsend.trans (deliverAcceptor_steps .sample 0 (by decide))).tail
    (callInitiator_step (c := .end_ ⟨0⟩ .sample) rfl trivial
      (by simp [Party.Timely, Call.now?]))).tail (emitInitiator_step (by decide))
  exact hend.trans (deliverAcceptor_steps .sample 0 (by decide))

theorem streams_deliver_sending : accepted 1 Link.sending.initiator.sends = [7, 8, 9] ∧
    .remoteEnd ⟨⟨1⟩, ⟨0⟩, 1, by decide⟩ ∈ Link.sending.acceptor.log ∧
    received 1 Link.sending.acceptor.log = [7, 8, 9] := by
  have hsent : accepted 1 Link.sending.initiator.sends = [7, 8, 9] := by decide
  have hend : .remoteEnd ⟨⟨1⟩, ⟨0⟩, 1, by decide⟩ ∈ Link.sending.acceptor.log := by decide
  have hs := (streams_deliver_what_was_sent Link.sample_initial Link.sending_reached).1
  exact ⟨hsent, hend, ((hs 1).2 _ rfl hend).trans hsent⟩

end TalkSphere
