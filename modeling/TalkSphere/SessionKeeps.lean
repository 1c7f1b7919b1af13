import TalkSphere.SessionWorks

/-! What the changes of a session leave alone: the identity of the connection, its limits and
the events that wait to be read, and except for a few the timers and the closed flag. -/

namespace TalkSphere

open Std (TreeMap)

namespace Session

structure Carries (s s' : Session) : Prop where
  handle : s'.handle = s.handle
  context : s'.context = s.context
  limits : s'.resources.limits = s.resources.limits
  written : s'.goawayWritten = s.goawayWritten
  events : s.events <+: s'.events

structure Keeps (s s' : Session) : Prop extends Carries s s' where
  closed : s'.closed = s.closed
  pings : s'.pings = s.pings
  now : s'.now = s.now

variable {s s' s'' : Session} {I : UInt32 → Prop} {id : UInt32} {n : Nat}

theorem Carries.refl (s : Session) : Carries s s := ⟨rfl, rfl, rfl, rfl, List.prefix_rfl⟩

theorem Carries.trans (h : Carries s s') (h' : Carries s' s'') : Carries s s'' :=
  ⟨h'.handle.trans h.handle, h'.context.trans h.context, h'.limits.trans h.limits,
    h'.written.trans h.written, h.events.trans h'.events⟩

theorem Keeps.refl (s : Session) : Keeps s s := ⟨.refl s, rfl, rfl, rfl⟩

theorem Keeps.trans (h : Keeps s s') (h' : Keeps s' s'') : Keeps s s'' :=
  ⟨h.toCarries.trans h'.toCarries, h'.closed.trans h.closed, h'.pings.trans h.pings,
    h'.now.trans h.now⟩

theorem releaseAll_limits (r : Resources) (frames : List WireFrame) :
    (releaseAll r frames).limits = r.limits := by
  unfold releaseAll
  induction frames generalizing r with
  | nil => rfl
  | cons f frames ih => rw [List.foldl_cons, ih, Resources.releaseOutbound_limits]

theorem Work.keeps (work : Work id n s s') : Keeps s s' := by
  cases work with
  | tuned | accepted | marked => exact ⟨⟨rfl, rfl, rfl, rfl, List.prefix_rfl⟩, rfl, rfl, rfl⟩
  | pushed kind room =>
    exact ⟨⟨rfl, rfl, Resources.outbound_limits room, rfl, List.prefix_rfl⟩, rfl, rfl, rfl⟩
  | purged id => exact ⟨⟨rfl, rfl, releaseAll_limits .., rfl, List.prefix_rfl⟩, rfl, rfl, rfl⟩
  | dropped | ended | added => exact ⟨⟨rfl, rfl, rfl, rfl, List.prefix_append ..⟩, rfl, rfl, rfl⟩
  | opened owner protocol live nonzero slots valid allocated fits =>
    exact ⟨⟨rfl, rfl, Resources.outbound_limits fits.room, rfl, List.prefix_append ..⟩, rfl, rfl,
      rfl⟩

theorem Works.keeps (works : Works I n s s') : Keeps s s' :=
  (works.lift (P := fun _ => True) .refl .trans (fun _ work _ => ⟨trivial, work.keeps⟩) trivial).2

theorem Sound.enrolled (hs : s.Sound) (hopen : s.closed = false) {ids : StreamIds}
    (hi : ids.Valid) (stream : StreamHandle) (protocol : Protocol) :
    (({ s with ids } : Session).enrolled stream protocol).Sound := by
  refine ⟨fun j state hj => ?_, by simp [Session.enrolled, hopen],
    by simp [Session.enrolled, hopen], hi⟩
  simp only [Session.enrolled, TreeMap.getElem?_insert] at hj
  split at hj
  case isTrue he =>
    cases hj
    exact Std.compare_eq_iff_eq.mp he
  case isFalse => exact hs.keyed j state hj

theorem Work.sound (work : Work id n s s') (hs : s.Sound) : s'.Sound := by
  cases work with
  | tuned | pushed | purged => exact ⟨hs.keyed, hs.closed_streams, hs.closed_pings, hs.ids⟩
  | accepted accepted =>
    exact ⟨hs.keyed, hs.closed_streams, hs.closed_pings, hs.ids.accept accepted⟩
  | dropped => exact hs.of_sub rfl rfl hs.ids (erase_sub s.streams id)
  | marked new found same => exact hs.of_sub rfl rfl hs.ids (insert_sub found same)
  | ended found => exact hs.of_sub rfl rfl hs.ids (insert_sub found rfl)
  | added owner protocol live => exact hs.enrolled live hs.ids _ protocol
  | opened owner protocol live nonzero slots valid allocated =>
    have hadded := hs.enrolled live (valid.allocate allocated) ⟨s.handle.id, owner, id, nonzero⟩
      protocol
    exact ⟨hadded.keyed, hadded.closed_streams, hadded.closed_pings, hadded.ids⟩

theorem close_events (hopen : s.closed = false) (failure : Option Failure)
    (response : Option ErrorCode) : (s.close failure response).events =
      s.events ++ s.closingEvents (failure.or s.drainFailure) := by
  rcases close_eq hopen failure response with hc | ⟨_, _, _, _, -, -, -, hc⟩ <;> rw [hc] <;> rfl

theorem close_keeps (s : Session) (failure : Option Failure) (response : Option ErrorCode) :
    (s.close failure response).closed = true ∧ Carries s (s.close failure response) := by
  by_cases hc : s.closed = true
  · rw [close, if_pos hc]
    exact ⟨hc, .refl s⟩
  have hl := releaseAll_limits s.resources s.outbound
  have hshut : Carries s (s.shut (failure.or s.drainFailure)) :=
    ⟨rfl, rfl, hl, rfl, List.prefix_append ..⟩
  rcases close_eq (Bool.eq_false_iff.mpr hc) failure response with
    he | ⟨code, f, lease, resources, -, -, fits, he⟩ <;> rw [he]
  · exact ⟨rfl, hshut⟩
  · exact ⟨rfl, hshut.trans (fits.works (I := (· = 0)) (by decide) rfl).keeps.toCarries⟩

theorem terminate_keeps (s : Session) (id : UInt32) (outcome : StreamOutcome) :
    Keeps s (s.terminate id outcome) :=
  (terminate_works s outcome (I := (· = id)) rfl).keeps

theorem sent_keeps (s : Session) (kind : FrameType) (id : UInt32) :
    Keeps { s with goawayWritten := decide (kind = .goAway) || s.goawayWritten }
      (s.sent kind id) :=
  (s.sent_works kind (I := (· = id)) rfl).keeps

theorem Sound.closed_ping (hs : s.Sound) (hc : s.closed = true) (token : Token) :
    s.pings[token]? = none := by
  have hl := hs.closed_pings hc
  cases hp : s.pings[token]? with
  | none => rfl
  | some x =>
    have := TreeMap.mem_toList_iff_getElem?_eq_some.mpr hp
    simp [hl] at this

theorem tick_pings (s : Session) (now : Instant) (token : Token) (x : Instant × Instant)
    (h : (s.tick now).pings[token]? = some x) : s.pings[token]? = some x := by
  simp only [tick, FiniteMap.getElem?_foldl_erase] at h
  split at h
  · cases h
  · exact h

theorem Parted.carries {kind : FrameType} {payload : List UInt8}
    {out : Except SessionError Unit × Session} (parted : Parted s kind id payload out) :
    Carries s out.2 := by
  cases parted with
  | worked works => exact works.keeps.toCarries
  | data | answered => exact ⟨rfl, rfl, rfl, rfl, List.prefix_append ..⟩
  | stale => exact ⟨rfl, rfl, rfl, rfl, List.prefix_rfl⟩
  | fatal code => exact (close_keeps s _ none).2

theorem receive_carries (s : Session) (f : VerifiedFrame) (registry : Registry) (now : Instant) :
    Carries s (s.receive f registry now).2 := by
  have htick : Carries s (s.tick now) := ⟨rfl, rfl, rfl, rfl, List.prefix_append ..⟩
  have hparts : s.closed = false → Carries s ((s.tick now).receiveParts f.wire.header.frameType
      f.wire.header.streamId f.wire.payload registry).2 := fun live =>
    htick.trans (receiveParts_parted (s := s.tick now) live ..).carries
  have hd := s.receive_dispatched f registry now
  generalize s.receive f registry now = out at hd ⊢
  cases hd with
  | late => exact .refl s
  | crowded => exact htick.trans (close_keeps _ _ none).2
  | @failed e s' live room failure code cause parts =>
    have hp := hparts live
    rw [parts] at hp
    exact hp.trans (close_keeps s' (some failure) (some code)).2
  | served live room parts =>
    have hp := hparts live
    rw [parts] at hp
    exact hp

theorem Turn.events {c : Call} (turn : Turn s c s') :
    s'.events.Sublist s.events ∨ s.events <+: s'.events := by
  cases turn with
  | worked works | pinged works => exact .inr works.keeps.events
  | overfull => exact .inr ((terminate_keeps s _ _).events.trans (close_keeps _ _ none).2.events)
  | ticked => exact .inr (List.prefix_append ..)
  | read reads less => exact .inl less
  | taken | lent => exact .inr List.prefix_rfl
  | sent kind id => exact .inr (sent_keeps s kind id).events
  | received f registry now => exact .inr (receive_carries s f registry now).events
  | closed => exact .inr (close_keeps s _ _).2.events

section

variable {f : VerifiedFrame} {registry : Registry} {now : Instant}

theorem receive_crowded (hopen : s.closed = false)
    (hfull : (s.tick now).eventLimit ≤ (s.tick now).events.length) :
    s.receive f registry now =
      (.error .capacity, (s.tick now).close (some ⟨.local_, .resourceLimit⟩) none) := by
  rw [receive, if_neg (by simp [hopen])]
  exact if_pos hfull

theorem receive_error_closed {e : SessionError} (hopen : s.closed = false)
    (he : (s.receive f registry now).1 = .error e) :
    (s.receive f registry now).2.closed = true := by
  have hd := s.receive_dispatched f registry now
  generalize s.receive f registry now = out at hd he ⊢
  cases hd with
  | late ceased => exact absurd (ceased.symm.trans hopen) (by rintro ⟨⟩)
  | crowded => exact (close_keeps _ _ _).1
  | failed => exact (close_keeps _ _ _).1
  | served => cases he

end

end Session

end TalkSphere
