import TalkSphere.SessionLocal

/-! Whose events a session queues, and that its closure is the last of them. -/

namespace TalkSphere

open Std (TreeMap)

def Event.connection? : Event → Option ConnectionId
  | .incomingConnection handle => some handle.id
  | .authenticated context => some context.connection
  | .streamOpened context _ _ => some context.connection
  | .data stream _ | .remoteEnd stream | .streamClosed stream _ => some stream.connection
  | .pingFinished connection _ _ => some connection
  | .connectionClosed connection _ => some connection
  | .listenerClosed _ _ => none

def Event.isInner : Event → Bool
  | .incomingConnection _ | .connectionClosed _ _ => false
  | _ => true

/-- Events added between two states, of which each is over or not: the closure comes last
and ends them. -/
inductive Ends (id : ConnectionId) : Bool → List Event → Bool → Prop
  | ceased : Ends id true [] true
  | going {events : List Event} (inner : ∀ e ∈ events, e.isInner = true) :
      Ends id false events false
  | ends {events : List Event} {failure : Option Failure}
      (inner : ∀ e ∈ events, e.isInner = true) :
      Ends id false (events ++ [.connectionClosed id failure]) true

namespace Ends

variable {id : ConnectionId} {a b c : Bool} {events more : List Event}

theorem quiet (b : Bool) : Ends id b [] b := by
  cases b
  · exact .going nofun
  · exact .ceased

theorem closed (id : ConnectionId) (failure : Option Failure) :
    Ends id false [.connectionClosed id failure] true :=
  show Ends id false ([] ++ [.connectionClosed id failure]) true from .ends nofun

theorem trans (h : Ends id a events b) (h' : Ends id b more c) : Ends id a (events ++ more) c := by
  cases h with
  | ceased => exact h'
  | ends inner =>
    cases h'
    rw [List.append_nil]
    exact .ends inner
  | going inner =>
    cases h' with
    | going inner' => exact .going (by simpa [or_imp, forall_and] using ⟨inner, inner'⟩)
    | ends inner' =>
      rw [← List.append_assoc]
      exact .ends (by simpa [or_imp, forall_and] using ⟨inner, inner'⟩)

end Ends

namespace Session

/-- Streams and context carry the identity of the connection. -/
structure Named (s : Session) : Prop where
  context : s.context.connection = s.handle.id
  streams : ∀ (id : UInt32) (state : StreamState), s.streams[id]? = some state →
    state.handle.connection = s.handle.id

structure Voice (events : List Event) (s s' : Session) : Prop where
  handle : s'.handle = s.handle
  context : s'.context = s.context
  queue : s'.events = s.events ++ events
  named : s.Named → s'.Named
  own : s.Named → ∀ e ∈ events, e.connection? = some s.handle.id
  ends : Ends s.handle.id s.closed events s'.closed

def Speaks (s s' : Session) : Prop := ∃ events, Voice events s s'

variable {s s' s'' : Session}

theorem Speaks.trans (h : Speaks s s') (h' : Speaks s' s'') : Speaks s s'' := by
  obtain ⟨events, h⟩ := h
  obtain ⟨more, h'⟩ := h'
  refine ⟨events ++ more, h'.handle.trans h.handle, h'.context.trans h.context, ?_,
    fun hn => h'.named (h.named hn), fun hn e he => ?_, h.ends.trans (h.handle ▸ h'.ends)⟩
  · rw [h'.queue, h.queue, List.append_assoc]
  · rcases List.mem_append.mp he with he | he
    · exact h.own hn e he
    · exact (h'.own (h.named hn) e he).trans (by rw [h.handle])

theorem Speaks.quiet (handle : s'.handle = s.handle) (context : s'.context = s.context)
    (events : s'.events = s.events) (closed : s'.closed = s.closed)
    (streams : s.Named → ∀ (id : UInt32) (state : StreamState), s'.streams[id]? = some state →
      state.handle.connection = s.handle.id) : Speaks s s' :=
  ⟨[], handle, context, by rw [events, List.append_nil],
    fun hn => ⟨by rw [context, handle, hn.context], fun id state h => handle ▸ streams hn id state h⟩,
    fun _ => nofun, closed ▸ .quiet _⟩

theorem Speaks.refl (s : Session) : Speaks s s :=
  .quiet rfl rfl rfl rfl fun hn => hn.streams

theorem Speaks.say {e : Event} (hopen : s.closed = false) (closed : s'.closed = false)
    (handle : s'.handle = s.handle) (context : s'.context = s.context)
    (events : s'.events = s.events ++ [e]) (inner : e.isInner = true)
    (own : s.Named → e.connection? = some s.handle.id)
    (streams : s.Named → ∀ (id : UInt32) (state : StreamState), s'.streams[id]? = some state →
      state.handle.connection = s.handle.id) : Speaks s s' := by
  refine ⟨[e], handle, context, events, fun hn => ⟨by rw [context, handle, hn.context],
    fun id state h => handle ▸ streams hn id state h⟩, fun hn e' he => ?_, ?_⟩
  · exact List.mem_singleton.mp he ▸ own hn
  · rw [hopen, closed]
    exact .going fun e' he => List.mem_singleton.mp he ▸ inner

theorem Named.erase (hn : s.Named) (gone : UInt32) (id : UInt32) (state : StreamState)
    (h : (s.streams.erase gone)[id]? = some state) : state.handle.connection = s.handle.id := by
  rw [TreeMap.getElem?_erase] at h
  split at h
  · cases h
  · exact hn.streams id state h

theorem Named.insert (hn : s.Named) {key : UInt32} {new : StreamState}
    (hnew : new.handle.connection = s.handle.id) (id : UInt32) (state : StreamState)
    (h : (s.streams.insert key new)[id]? = some state) :
    state.handle.connection = s.handle.id := by
  rw [TreeMap.getElem?_insert] at h
  split at h
  · exact Option.some.inj h ▸ hnew
  · exact hn.streams id state h

theorem Work.speaks {id : UInt32} {n : Nat} (work : Work id n s s') (hs : s.Sound) :
    Speaks s s' := by
  cases work with
  | tuned | accepted | pushed | purged => exact .quiet rfl rfl rfl rfl fun hn => hn.streams
  | @dropped _ _ state outcome found =>
    have live := hs.open_of_stream found
    exact .say live live rfl rfl rfl rfl (fun hn => congrArg some (hn.streams id state found))
      fun hn => hn.erase id
  | @marked _ _ state new found same =>
    exact .quiet rfl rfl rfl rfl fun hn => hn.insert (same ▸ hn.streams id state found)
  | @ended _ _ state found =>
    have live := hs.open_of_stream found
    exact .say live live rfl rfl rfl rfl (fun hn => congrArg some (hn.streams id state found))
      fun hn => hn.insert (hn.streams id state found)
  | added owner protocol live | opened owner protocol live =>
    exact .say live live rfl rfl rfl rfl (fun hn => congrArg some hn.context)
      fun hn => hn.insert rfl

theorem Works.speaks {I : UInt32 → Prop} {n : Nat} (works : Works I n s s') (hs : s.Sound) :
    Speaks s s' :=
  (works.lift .refl .trans (fun _ work hs => ⟨work.sound hs, work.speaks hs⟩) hs).2

theorem close_speaks (s : Session) (failure : Option Failure) (response : Option ErrorCode) :
    Speaks s (s.close failure response) := by
  by_cases hc : s.closed = true
  · rw [close, if_pos hc]
    exact .refl s
  have hopen : s.closed = false := Bool.eq_false_iff.mpr hc
  have hshut : Speaks s (s.shut (failure.or s.drainFailure)) := by
    refine ⟨_, rfl, rfl, rfl, fun hn => ⟨hn.context, fun id state h => ?_⟩, fun hn e he => ?_, ?_⟩
    · simp [shut] at h
    · simp only [closingEvents, List.mem_append, List.mem_map, List.mem_singleton] at he
      rcases he with (⟨x, -, rfl⟩ | ⟨x, hx, rfl⟩) | rfl
      · rfl
      · exact congrArg some (hn.streams x.1 x.2 (TreeMap.mem_toList_iff_getElem?_eq_some.mp hx))
      · rfl
    · rw [hopen]
      refine .ends fun e he => ?_
      simp only [List.mem_append, List.mem_map] at he
      rcases he with ⟨x, -, rfl⟩ | ⟨x, -, rfl⟩ <;> rfl
  rcases close_eq hopen failure response with he | ⟨_, _, _, _, -, -, -, he⟩ <;> rw [he]
  · exact hshut
  · exact hshut.trans (.quiet rfl rfl rfl rfl fun hn => hn.streams)

theorem sent_speaks (hs : s.Sound) (kind : FrameType) (id : UInt32) :
    Speaks s (s.sent kind id) := by
  have hset : Speaks s { s with goawayWritten := decide (kind = .goAway) || s.goawayWritten } :=
    .quiet rfl rfl rfl rfl fun hn => hn.streams
  exact hset.trans ((s.sent_works kind (I := (· = id)) rfl).speaks
    ⟨hs.keyed, hs.closed_streams, hs.closed_pings, hs.ids⟩)

theorem tick_speaks (hs : s.closed = true → s.pings.toList = []) (now : Instant) :
    Speaks s (s.tick now) := by
  refine ⟨_, rfl, rfl, rfl, fun hn => ⟨hn.context, hn.streams⟩, fun hn e he => ?_, ?_⟩
  · obtain ⟨token, -, rfl⟩ := List.mem_map.mp he
    rfl
  · cases hc : s.closed with
    | true =>
      rw [hs hc, show (s.tick now).closed = s.closed from rfl, hc]
      exact .ceased
    | false =>
      rw [show (s.tick now).closed = s.closed from rfl, hc]
      refine .going fun e he => ?_
      obtain ⟨token, -, rfl⟩ := List.mem_map.mp he
      rfl

theorem receiveParts_speaks (hs : s.Sound) (live : s.closed = false) (kind : FrameType)
    (id : UInt32) (payload : List UInt8) (registry : Registry) :
    Speaks s (s.receiveParts kind id payload registry).2 := by
  have hp := receiveParts_parted live kind id payload registry
  generalize s.receiveParts kind id payload registry = out at hp ⊢
  cases hp with
  | worked works => exact works.speaks hs
  | @data state found =>
    exact .say live live rfl rfl rfl rfl (fun hn => congrArg some (hn.streams id state found))
      fun hn => hn.streams
  | answered => exact .say live live rfl rfl rfl rfl (fun _ => rfl) fun hn => hn.streams
  | stale => exact .quiet rfl rfl rfl rfl fun hn => hn.streams
  | fatal => exact close_speaks s _ none

theorem receive_speaks (hs : s.Sound) (f : VerifiedFrame) (registry : Registry) (now : Instant) :
    Speaks s (s.receive f registry now).2 := by
  have ht := tick_speaks hs.closed_pings now
  have hsound : (s.tick now).Sound :=
    (tick_moves (h := ⟨[], 0, [], []⟩) ⟨hs, Nat.zero_le _⟩ now).1.sound
  have hparts := fun live => receiveParts_speaks (s := s.tick now) hsound live
    f.wire.header.frameType f.wire.header.streamId f.wire.payload registry
  have hd := s.receive_dispatched f registry now
  generalize s.receive f registry now = out at hd ⊢
  cases hd with
  | late => exact .refl s
  | crowded => exact ht.trans (close_speaks _ (some ⟨.local_, .resourceLimit⟩) none)
  | @failed e s' live room failure code cause parts =>
    have hparts := hparts live
    rw [parts] at hparts
    exact ht.trans (hparts.trans (close_speaks s' (some failure) (some code)))
  | served live room parts =>
    have hparts := hparts live
    rw [parts] at hparts
    exact ht.trans hparts

/-- Every turn but that of a reader. -/
theorem Turn.speaks (hs : s.Sound) {c : Call} (turn : Turn s c s') (hc : ¬ c.isRead = true) :
    Speaks s s' := by
  cases turn with
  | worked works => exact works.speaks hs
  | @overfull _ stream =>
    exact ((terminate_works s _ (I := (· = stream.wireId)) rfl).speaks hs).trans
      (close_speaks _ _ none)
  | pinged works =>
    exact (works.speaks hs).trans (.quiet rfl rfl rfl rfl fun hn => hn.streams)
  | ticked now => exact tick_speaks hs.closed_pings now
  | read reads => exact absurd reads hc
  | taken | lent => exact .quiet rfl rfl rfl rfl fun hn => hn.streams
  | sent kind id => exact sent_speaks hs kind id
  | received f registry now => exact receive_speaks hs f registry now
  | closed failure response => exact close_speaks s failure response

theorem Speaks.taken (s : Session) (last : Option UInt32) (outbound : List WireFrame)
    (resources : Resources) : Speaks s { s with lastOutput := last, outbound, resources } :=
  .quiet rfl rfl rfl rfl fun hn => hn.streams

theorem withHandle_named (handle : ConnectionHandle) (role : ConnectionRole)
    (localIdentity peerIdentity : IdentityId) :
    (Session.withHandle handle role localIdentity peerIdentity).Named :=
  ⟨rfl, fun id state h => by simp [Session.withHandle] at h⟩

end Session

end TalkSphere
