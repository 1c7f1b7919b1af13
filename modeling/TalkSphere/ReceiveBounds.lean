import TalkSphere.EventMemory
import TalkSphere.SessionEmits

/-! What a peer can make a session hold: unread bytes of a stream, open streams and
outstanding pings, each within the limit that admits it. -/

namespace TalkSphere

open Relation (ReflTransGen)

namespace Session

variable {s s' s'' : Session}

def Stores (s s' : Session) : Prop :=
  ∀ id, s'.buffered id ≤ max (s.buffered id) s.resources.limits.bufferedBytesPerStream

theorem Stores.trans (h : Stores s s') (h' : Stores s' s'')
    (hl : s'.resources.limits = s.resources.limits) : Stores s s'' := by
  intro id
  have h := h id
  have h' := h' id
  rw [hl] at h'
  omega

theorem buffered_append {more : List Event} (h : s'.events = s.events ++ more) (id : UInt32) :
    s'.buffered id = s.buffered id + (more.map (Event.load id)).sum := by
  rw [buffered_eq, buffered_eq, h, List.map_append, List.sum_append]

theorem Emits.stores (h : Emits (fun e => ∀ id, e.load id = 0) s s') : Stores s s' := by
  obtain ⟨more, he, hp⟩ := h
  intro id
  have hz : (more.map (Event.load id)).sum = 0 := by
    rw [List.sum_eq_zero_iff]
    simpa using fun e hm => hp e hm id
  rw [buffered_append he, hz]
  exact le_max_left ..

theorem closingEvents_load (s : Session) (failure : Option Failure) :
    ∀ e ∈ s.closingEvents failure, ∀ id, e.load id = 0 := by
  intro e he id
  simp only [closingEvents, List.mem_append, List.mem_map, List.mem_singleton] at he
  rcases he with (⟨x, -, rfl⟩ | ⟨x, -, rfl⟩) | rfl <;> rfl

theorem close_stores (s : Session) (failure : Option Failure) (response : Option ErrorCode) :
    Stores s (s.close failure response) := by
  by_cases hc : s.closed = true
  · rw [close, if_pos hc]
    exact fun id => le_max_left ..
  · exact Emits.stores ⟨_, close_events (by simpa using hc) failure response,
      closingEvents_load s _⟩

theorem tick_stores (s : Session) (now : Instant) : Stores s (s.tick now) := fun id => by
  rw [tick_buffered]
  exact le_max_left ..

theorem receiveParts_stores (hs : s.Sound) (live : s.closed = false) (kind : FrameType)
    (id : UInt32) (payload : List UInt8) (registry : Registry) :
    Stores s (s.receiveParts kind id payload registry).2 := by
  have hp := receiveParts_parted live kind id payload registry
  generalize s.receiveParts kind id payload registry = out at hp ⊢
  cases hp with
  | worked works => exact ((works.emits hs).mono fun _ he => he.2).stores
  | @data state found room =>
    have own : state.handle.wireId = id := hs.keyed id state found
    intro j
    rw [buffered_append rfl]
    by_cases hj : state.handle.wireId = j
    · obtain rfl : id = j := own.symm.trans hj
      refine le_max_of_le_right ?_
      simpa [Event.load, own] using room
    · refine le_max_of_le_left ?_
      simp [Event.load, hj]
  | answered => exact Emits.stores (.one rfl fun _ => rfl)
  | stale => exact fun id => le_max_left ..
  | fatal => exact close_stores s _ none

theorem receive_stores (hs : s.Sound) (f : VerifiedFrame) (registry : Registry) (now : Instant) :
    Stores s (s.receive f registry now).2 := by
  have hd := s.receive_dispatched f registry now
  generalize s.receive f registry now = out at hd ⊢
  have htick := tick_stores s now
  have hsound : (s.tick now).Sound :=
    (Party.run_local (p := Party.start s 0) hs (c := .tick now) rfl).1
  have hparts := fun live => receiveParts_stores (s := s.tick now) hsound live
    f.wire.header.frameType f.wire.header.streamId f.wire.payload registry
  cases hd with
  | late => exact fun id => le_max_left ..
  | crowded => exact htick.trans (close_stores _ _ _) rfl
  | failed live room cause parts =>
    have hlim := (receiveParts_parted (s := s.tick now) live f.wire.header.frameType
      f.wire.header.streamId f.wire.payload registry).carries.limits
    have hparts := hparts live
    rw [parts] at hparts hlim
    exact htick.trans (hparts.trans (close_stores _ _ _) hlim) rfl
  | served live room parts =>
    have hparts := hparts live
    rw [parts] at hparts
    exact htick.trans hparts rfl

theorem stores_of_sublist (h : s'.events.Sublist s.events) : Stores s s' := fun id => by
  rw [buffered_eq, buffered_eq]
  exact le_max_of_le_left (List.Sublist.sum_le_sum (h.map _) fun _ _ => Nat.zero_le _)

end Session

namespace Party

variable {p : Party}

theorem run_stores (hs : p.session.Sound) (c : Call) :
    Session.Stores p.session (p.run c).session := by
  have plain : ∀ {s : Session}, Session.Emits Event.Plain p.session s →
      Session.Stores p.session s := fun h => (h.mono fun _ he => he.2).stores
  have hturn := run_turn hs.ids c
  generalize (p.run c).session = s at hturn ⊢
  cases hturn with
  | worked works | pinged works => exact plain (works.emits hs)
  | @overfull _ stream reason =>
    have hterm := Session.terminate_works p.session (.cancelled .local_ reason)
      (I := (· = stream.wireId)) rfl
    exact (plain (hterm.emits hs)).trans (Session.close_stores _ _ none) hterm.keeps.limits
  | ticked now => exact Session.tick_stores _ now
  | read reads less => exact Session.stores_of_sublist less
  | taken | lent => exact Session.stores_of_sublist (.refl _)
  | sent kind id => exact plain (Session.sent_emits hs kind id)
  | received f registry now => exact Session.receive_stores hs f registry now
  | closed failure response => exact Session.close_stores _ failure response

/-- The tables, the unread bytes and the limits they obey. -/
structure Held (limits : ResourceLimits) (s : Session) : Prop where
  bytes : ∀ id, s.buffered id ≤ limits.bufferedBytesPerStream
  streams : s.streams.size ≤ limits.streamsPerConnection
  pings : s.pings.size ≤ 64
  limits : s.resources.limits = limits

theorem run_held {limits : ResourceLimits} (hs : p.session.Sound) (hh : Held limits p.session)
    (c : Call) : Held limits (p.run c).session := by
  have hbytes : ∀ id, (p.run c).session.buffered id ≤ limits.bufferedBytesPerStream := by
    intro id
    have hst := run_stores hs c id
    have hold := hh.bytes id
    rw [hh.limits] at hst
    omega
  have heffect : ∀ {s : Session}, (∀ id, s.buffered id ≤ limits.bufferedBytesPerStream) →
      Session.Effect 2 p.session s → Held limits s := fun hbytes he => by
    have hstreams := he.streams
    have hpings := he.pings
    rw [hh.limits] at hstreams
    have h₁ := hh.streams
    have h₂ := hh.pings
    exact ⟨hbytes, by omega, by omega, he.limits.trans hh.limits⟩
  by_cases hc : c.plain = true
  · exact heffect hbytes (run_effect hs hc)
  · have hturn := run_turn hs.ids c
    generalize (p.run c).session = s at hturn hbytes ⊢
    cases hturn with
    | worked works few => exact heffect hbytes (works.effect.mono few)
    | read | taken | lent => exact ⟨hbytes, hh.streams, hh.pings, hh.limits⟩
    | _ => exact absurd rfl hc

/-- Whatever the peer sends and in whatever order events are read, the unread bytes of a
stream, open or closed, the open streams and the outstanding pings stay in their limits. -/
theorem receive_bounds {role : ConnectionRole} {s : Session} {clock : Instant}
    (hs : s.Fresh role) (hp : ReflTransGen Party.Step (Party.start s clock) p) :
    (∀ id, (received id p.session.events).length ≤
      s.resources.limits.bufferedBytesPerStream) ∧
    p.session.streams.size ≤ s.resources.limits.streamsPerConnection ∧
    p.session.pings.size ≤ 64 := by
  have hinv : p.session.Sound ∧ Held s.resources.limits p.session := by
    induction hp with
    | refl =>
      refine ⟨hs.sound.1, ?_⟩
      obtain ⟨handle, mine, peers, resources, rfl⟩ := hs
      exact ⟨fun id => Nat.zero_le _, Nat.zero_le _, Nat.zero_le _, rfl⟩
    | tail _ hstep ih =>
      obtain ⟨c, -, rfl⟩ := hstep
      exact ⟨(run_free ih.1 c).1, run_held ih.1 ih.2 c⟩
  obtain ⟨-, hh⟩ := hinv
  refine ⟨fun id => ?_, hh.streams, hh.pings⟩
  rw [received_length, ← Session.buffered_eq]
  exact hh.bytes id

/-- Two streams are open and one has three bytes to read. -/
theorem receive_bounds_flooded : (flooded 3).session.streams.size = 2 ∧
    (received 1 (flooded 3).session.events).length = 3 ∧
    (received 1 (flooded 3).session.events).length ≤
      idle.session.resources.limits.bufferedBytesPerStream := by
  have hfresh : idle.session.Fresh .acceptor := ⟨_, _, _, _, rfl⟩
  exact ⟨by decide +kernel, by decide +kernel, (receive_bounds hfresh (flooded_reached 3)).1 1⟩

end Party

end TalkSphere
