import TalkSphere.Joint

/-! The two ways a stream is refused, a stop that says so and the bound of a
GOAWAY, against the streams the refusing endpoint has reported. -/

namespace TalkSphere

variable {a a' b b' : Endpoint} {i : UInt32} {m : Message} {out inc inc' kept : List Message}
  {added : Option Message}

def Opened (log : List Event) (i : UInt32) : Prop :=
  ∃ context stream protocol, .streamOpened context stream protocol ∈ log ∧ stream.wireId = i

theorem Opened.mono {l l' : List Event} (h : Opened l i) (hs : l ⊆ l') : Opened l' i := by
  obtain ⟨context, stream, protocol, hm, hi⟩ := h
  exact ⟨context, stream, protocol, hs hm, hi⟩

theorem Opened.of_append {l l' : List Event} (h : Opened (l ++ l') i)
    (hl : ∀ context stream protocol, .streamOpened context stream protocol ∉ l') : Opened l i := by
  obtain ⟨context, stream, protocol, hm, hi⟩ := h
  exact ⟨context, stream, protocol, (List.mem_append.mp hm).resolve_right (hl _ _ _), hi⟩

namespace Endpoint

/-- This endpoint never reports stream `i`, now or later. -/
structure Barred (b : Endpoint) (i : UInt32) : Prop where
  unopened : ¬ Opened b.log i
  spent : b.ids.wasCreated i = true ∨ b.goawaySent = true

theorem Closing.unopened {failure : Failure} {events : List Event} (hc : Closing b failure events)
    (context : PeerContext) (stream : StreamHandle) (protocol : Protocol) :
    .streamOpened context stream protocol ∉ events := by
  intro hm
  have ht : .streamOpened context stream protocol ∈ trace stream.wireId events :=
    List.mem_filter.mpr ⟨hm, by simp [onStream, Event.stream?]⟩
  rw [hc.onStreams] at ht
  cases hst : b.streams stream.wireId <;> simp [hst] at ht

/-- What a step may add to the streams an endpoint has reported. -/
structure Takes (b b' : Endpoint) : Prop where
  log : b.log ⊆ b'.log
  opened : ∀ i, Opened b'.log i → Opened b.log i ∨
    (b.ids.wasCreated i = false ∧ b'.ids.wasCreated i = true ∧ b.goawaySent = false ∧
      (b.ids.isLocal i = true ∨ b'.acceptedRemote = i))
  accepted : b'.acceptedRemote = b.acceptedRemote ∨
    (b.goawaySent = false ∧ Opened b'.log b'.acceptedRemote ∧
      b.ids.isLocal b'.acceptedRemote = false ∧
      ∀ j, b.ids.wasCreated j = true → b.ids.isLocal j = false → j ≤ b'.acceptedRemote)

theorem Takes.of_append {events : List Event} (hl : b'.log = b.log ++ events)
    (hacc : b'.acceptedRemote = b.acceptedRemote)
    (he : ∀ context stream protocol, .streamOpened context stream protocol ∉ events) :
    Takes b b' where
  log := hl ▸ List.subset_append_left ..
  opened := fun _ h => .inl ((hl ▸ h).of_append he)
  accepted := .inl hacc

theorem Takes.of_log (hl : b'.log = b.log) (hacc : b'.acceptedRemote = b.acceptedRemote) :
    Takes b b' :=
  @of_append b b' [] (by simp [hl]) hacc (by simp)

theorem Local.takes (hb : b.Own) (h : Local b b') : Takes b b' := by
  cases h with
  | note events hopen hping =>
    refine .of_append rfl rfl fun context stream protocol hm => ?_
    obtain ⟨c, t, r, he⟩ := hping _ hm
    cases he
  | @open_ id ids context stream protocol hopen hsent hpeer hid hs =>
    refine ⟨List.subset_append_left .., fun i hi => ?_, .inl rfl⟩
    obtain ⟨context', stream', protocol', hm, rfl⟩ := hi
    refine (List.mem_append.mp hm).imp (fun hm => ⟨_, _, _, hm, rfl⟩) fun hm => ?_
    obtain ⟨-, rfl, -⟩ := Event.streamOpened.inj (List.mem_singleton.mp hm)
    obtain ⟨hn, -⟩ := StreamIds.allocate_ok hid
    obtain ⟨hp, -, -⟩ := StreamIds.following_eq_some hb.ids.local_parity (hb.ids.next_local ▸ hn)
    rw [hs]
    exact ⟨StreamIds.allocate_fresh hb.ids hid,
      (StreamIds.wasCreated_allocate hb.ids hid id).mpr (.inr rfl), hsent, .inl hp⟩
  | completed => exact .of_append rfl rfl (by simp)
  | stop => exact .of_append rfl rfl (by simp)
  | close response hopen hc => exact .of_append rfl rfl hc.unopened
  | probe | send | end_ | reported | drain => exact .of_log rfl rfl

theorem Consume.takes (hb : b.Own) (h : Consume m b b') : Takes b b' := by
  cases h with
  | @admitted _ id ids context stream protocol hopen hsent hpeer hid hs =>
    obtain ⟨hn, -⟩ := StreamIds.accept_ok hid
    obtain ⟨hp, hlt, -⟩ :=
      StreamIds.following_eq_some hb.ids.remote_parity (hb.ids.next_remote ▸ hn)
    have hrem : b.ids.isLocal id = false := (StreamIds.ofParity_not.mp hp).2
    refine ⟨List.subset_append_left .., fun i hi => ?_, .inr ⟨hsent, ?_, hrem, fun j hj hl => ?_⟩⟩
    · obtain ⟨context', stream', protocol', hm, rfl⟩ := hi
      refine (List.mem_append.mp hm).imp (fun hm => ⟨_, _, _, hm, rfl⟩) fun hm => ?_
      obtain ⟨-, rfl, -⟩ := Event.streamOpened.inj (List.mem_singleton.mp hm)
      rw [hs]
      exact ⟨StreamIds.accept_fresh hb.ids hid,
        (StreamIds.wasCreated_accept hb.ids hid id).mpr (.inr rfl), hsent, .inr rfl⟩
    · exact ⟨context, stream, protocol, List.mem_concat_self .., hs⟩
    · rcases StreamIds.wasCreated_iff.mp hj with ⟨hj, -⟩ | ⟨-, hle⟩
      · rw [StreamIds.isLocal_eq, hj] at hl
        cases hl
      · exact UInt32.le_trans hle (UInt32.le_of_lt hlt)
  | data => exact .of_append rfl rfl (by simp)
  | overflow => exact .of_append rfl rfl (by simp)
  | end_ => exact .of_append rfl rfl (by simp)
  | stop => exact .of_append rfl rfl (by simp)
  | @goAway _ last code events hopen hlog hevents =>
    refine .of_append rfl rfl fun context stream protocol hm => ?_
    have ht : .streamOpened context stream protocol ∈ trace stream.wireId events :=
      List.mem_filter.mpr ⟨hm, by simp [onStream, Event.stream?]⟩
    rw [hlog] at ht
    split at ht
    · cases hst : b.streams stream.wireId <;> simp [hst] at ht
    · cases ht
  | fatal hopen hc => exact .of_append rfl rfl hc.unopened
  | refused | ignored | probe => exact .of_log rfl rfl

def Refuses (b b' : Endpoint) : Prop :=
  ∀ i, .stop i (.failed ⟨.peer, .refused⟩) ∈ b'.queue →
    .stop i (.failed ⟨.peer, .refused⟩) ∈ b.queue ∨
      (b.ids.wasCreated i = false ∧ b'.ids.wasCreated i = true ∧ b'.log = b.log)

theorem Refuses.of_subset (h : b'.queue ⊆ b.queue) : b.Refuses b' := fun _ hm => .inl (h hm)

theorem Refuses.of_push (hq : b'.queue = b.queue ++ [m]) (hm : m.stage ≠ 3) : b.Refuses b' := by
  intro i hi
  rw [hq] at hi
  refine .inl ((List.mem_append.mp hi).resolve_right fun h => hm ?_)
  rw [← List.mem_singleton.mp h]
  rfl

theorem Refuses.of_stop {id : UInt32} {reply : Option StreamOutcome}
    (hq : b'.queue = purge id b.queue ++ reply.toList.map (.stop id))
    (hr : ∀ o ∈ reply, o.Plain) : b.Refuses b' := by
  intro i hi
  rw [hq] at hi
  refine .inl ((List.mem_append.mp hi).elim (fun h => (List.mem_filter.mp h).1) fun h => ?_)
  obtain ⟨o, ho, he⟩ := List.mem_map.mp h
  obtain ⟨-, rfl⟩ := Message.stop.inj he
  exact absurd rfl (hr _ (Option.mem_toList.mp ho)).1

theorem Refuses.of_shut (events : List Event) (response : Option ErrorCode) :
    b.Refuses (b.shut events response) := by
  intro i hi
  simp [shut] at hi

theorem Local.refuses (h : Local b b') : b.Refuses b' := by
  cases h with
  | probe => exact .of_push rfl (by simp [Message.stage])
  | open_ => exact .of_push rfl (by simp [Message.stage])
  | send => exact .of_push rfl (by simp [Message.stage])
  | end_ => exact .of_push rfl (by simp [Message.stage])
  | stop reply hopen hstream ho hc hr => exact .of_stop rfl hr
  | drain => exact .of_push rfl (by simp [Message.stage])
  | close => exact .of_shut _ _
  | note | reported | completed => exact .of_subset fun _ h => h

theorem Consume.refuses (hb : b.Own) (h : Consume m b b') : b.Refuses b' := by
  cases h with
  | @refused _ id ids reply hopen hid hr =>
    intro i hi
    refine (List.mem_append.mp hi).imp_right fun h => ?_
    obtain ⟨o, -, he⟩ := List.mem_map.mp h
    obtain ⟨rfl, -⟩ := Message.stop.inj he
    exact ⟨StreamIds.accept_fresh hb.ids hid,
      (StreamIds.wasCreated_accept hb.ids hid id).mpr (.inr rfl), rfl⟩
  | overflow reply hopen hstream ho hc hr => exact .of_stop rfl hr
  | stop => exact .of_subset fun _ h => (List.mem_filter.mp h).1
  | goAway => exact .of_subset fun _ h => (List.mem_filter.mp h).1
  | fatal => exact .of_shut _ _
  | admitted | data | end_ | ignored | probe => exact .of_subset fun _ h => h

theorem Barred.step (h : b.Barred i) (ht : Takes b b')
    (hc : ∀ j, b.ids.wasCreated j = true → b'.ids.wasCreated j = true)
    (hg : b.goawaySent = true → b'.goawaySent = true) : b'.Barred i := by
  refine ⟨fun ho => ?_, h.spent.imp (hc i) hg⟩
  rcases ht.opened i ho with ho | ⟨hf, -, hs, -⟩
  · exact h.unopened ho
  · rcases h.spent with hw | hw
    · rw [hf] at hw
      cases hw
    · rw [hs] at hw
      cases hw

end Endpoint

/-- What `b` has told `a` about the streams it takes, on the way and in the log of `a`. -/
structure Notices (b : Endpoint) (inc : List Message) (a : Endpoint) : Prop where
  created : ∀ i, Opened b.log i → b.ids.wasCreated i = true
  accepted_le : ∀ i, Opened b.log i → b.ids.isLocal i = false → i ≤ b.acceptedRemote
  accepted : b.acceptedRemote = 0 ∨
    (Opened b.log b.acceptedRemote ∧ b.ids.isLocal b.acceptedRemote = false)
  announced : ∀ last code, .goAway last code ∈ way b inc →
    b.goawaySent = true ∧ last = b.acceptedRemote
  honest : ∀ m ∈ way b inc, m.Honest
  stops : ∀ i, .stop i (.failed ⟨.peer, .refused⟩) ∈ way b inc → b.Barred i
  refused : ∀ stream, .streamClosed stream (.failed ⟨.peer, .refused⟩) ∈ a.log →
    b.Barred stream.wireId

namespace Notices

theorem step (hn : Notices b inc a) (hs : Sends b b' kept added) (ht : Endpoint.Takes b b')
    (hr : b.Refuses b') : Notices b' inc a := by
  have hsent := hs.goawaySent
  have hbar : ∀ i, b.Barred i → b'.Barred i := fun i h =>
    h.step ht (fun _ => hs.created) hsent
  have hlocal : ∀ j, b'.ids.isLocal j = b.ids.isLocal j := fun j => by
    rw [StreamIds.isLocal_eq, StreamIds.isLocal_eq, hs.odd]
  refine ⟨fun i hi => ?_, fun i hi hl => ?_, ?_, fun last code hm => ?_, fun k hk => ?_,
    fun i hm => ?_, fun stream hm => hbar _ (hn.refused stream hm)⟩
  · rcases ht.opened i hi with hi | ⟨-, hc, -⟩
    · exact hs.created (hn.created i hi)
    · exact hc
  · rw [hlocal] at hl
    rcases ht.opened i hi with hi | ⟨-, -, -, hl' | hacc⟩
    · rcases ht.accepted with hacc | ⟨-, -, -, hle⟩
      · rw [hacc]
        exact hn.accepted_le i hi hl
      · exact hle i (hn.created i hi) hl
    · rw [hl] at hl'
      cases hl'
    · rw [hacc]
      exact UInt32.le_refl _
  · rw [hlocal]
    rcases ht.accepted with hacc | ⟨-, ho, hl, -⟩
    · rw [hacc]
      exact hn.accepted.imp_right fun h => ⟨h.1.mono ht.log, h.2⟩
    · exact .inr ⟨ho, hl⟩
  · rcases hs.mem_way hm with ⟨-, hm⟩ | hm
    · obtain ⟨hg, hl⟩ := hn.announced last code hm
      refine ⟨hsent hg, hl.trans ?_⟩
      rcases ht.accepted with hacc | ⟨hg', -⟩
      · exact hacc.symm
      · rw [hg] at hg'
        cases hg'
    · rcases hs.bound with ⟨-, -, hno⟩ | ⟨-, hg, hacc, code', hadd⟩
      · exact absurd (hno _ hm) (by simp [Message.isGoAway])
      · rw [hadd] at hm
        cases hm
        exact ⟨hg, hacc.symm⟩
  · rcases hs.mem_way hk with ⟨-, hk⟩ | hk
    · exact hn.honest k hk
    · exact hs.honest k hk
  · rcases List.mem_append.mp hm with hm | hm
    · exact hbar i (hn.stops i (List.mem_append_left _ hm))
    · rcases hr i hm with hm | ⟨hf, hc, hl⟩
      · exact hbar i (hn.stops i (List.mem_append_right _ hm))
      · refine ⟨fun ho => ?_, .inl hc⟩
        rw [hl] at ho
        rw [hn.created i ho] at hf
        cases hf

theorem sender_local (hn : Notices b inc a) (hb : b.Own) (h : Endpoint.Local b b') :
    Notices b' inc a := by
  obtain ⟨kept, added, hs⟩ := h.sends hb
  exact hn.step hs (h.takes hb) h.refuses

theorem sender_consume (hn : Notices b inc a) (hb : b.Own) (h : Endpoint.Consume m b b') :
    Notices b' inc a := by
  obtain ⟨kept, added, hs⟩ := h.sends hb
  exact hn.step hs (h.takes hb) (h.refuses hb)

theorem receiver (hn : Notices b inc a) (hsub : inc' ⊆ inc)
    (hr : ∀ stream, .streamClosed stream (.failed ⟨.peer, .refused⟩) ∈ a'.log →
      .streamClosed stream (.failed ⟨.peer, .refused⟩) ∈ a.log ∨ b.Barred stream.wireId) :
    Notices b inc' a' := by
  have hway : ∀ k ∈ way b inc', k ∈ way b inc := fun k hk =>
    List.mem_append.mpr ((List.mem_append.mp hk).imp_left fun h => hsub h)
  exact {
    created := hn.created
    accepted_le := hn.accepted_le
    accepted := hn.accepted
    announced := fun last code h => hn.announced last code (hway _ h)
    honest := fun k h => hn.honest k (hway k h)
    stops := fun i h => hn.stops i (hway _ h)
    refused := fun stream h => (hr stream h).elim (hn.refused stream) fun h => h }

theorem receiver_local (hn : Notices b inc a) (h : Endpoint.Local a a') : Notices b inc a' := by
  refine hn.receiver (fun _ h => h) fun stream hm => ?_
  exact (h.outcome hm).imp_right fun hp => absurd rfl hp.1

theorem receiver_consume (hn : Notices b (m :: inc) a) (ha : a.Own)
    (hp : a.ids.localOdd = !b.ids.localOdd) (h : Endpoint.Consume m a a') : Notices b inc a' := by
  have hm : m ∈ way b (m :: inc) := List.mem_cons_self
  refine hn.receiver (List.subset_cons_self ..) fun stream hl => ?_
  rcases h.outcome ha (hn.honest m hm) hl with hl | hpl | ⟨-, hr⟩
  · exact .inl hl
  · exact absurd rfl hpl.1
  · right
    rcases hr with ⟨last, code, rfl, hloc, hlt⟩ | rfl
    · obtain ⟨hg, rfl⟩ := hn.announced last code hm
      refine ⟨fun ho => ?_, .inr hg⟩
      rw [StreamIds.isLocal_eq, hp, StreamIds.ofParity_not] at hloc
      exact UInt32.not_lt.mpr (hn.accepted_le _ ho hloc.2) hlt
    · exact hn.stops _ hm

theorem emit {rest : List Message} (hn : Notices b inc a) (hp : Session.Picks b.queue m rest) :
    Notices { b with queue := rest } (inc ++ [m]) a := by
  have hway : ∀ k ∈ way { b with queue := rest } (inc ++ [m]), k ∈ way b inc :=
    fun k hk => (way_emit hp).mem_iff.mp hk
  exact {
    created := hn.created
    accepted_le := hn.accepted_le
    accepted := hn.accepted
    announced := fun last code h => hn.announced last code (hway _ h)
    honest := fun k h => hn.honest k (hway k h)
    stops := fun i h => ⟨(hn.stops i (hway _ h)).1, (hn.stops i (hway _ h)).2⟩
    refused := fun stream h => ⟨(hn.refused stream h).1, (hn.refused stream h).2⟩ }

end Notices

structure Notified (a : Endpoint) (out inc : List Message) (b : Endpoint) : Prop where
  joint : Joint a out inc b
  there : Notices a out b
  back : Notices b inc a

theorem Notified.symm (h : Notified a out inc b) : Notified b inc out a :=
  ⟨h.joint.symm, h.back, h.there⟩

theorem Notified.lasting : Lasting Notified where
  joint h := h.joint
  local_ h hs := ⟨h.joint.local_ hs, h.there.sender_local h.joint.own hs, h.back.receiver_local hs⟩
  consume h hopen hc := ⟨h.joint.consume hopen hc, h.there.sender_consume h.joint.own hc,
    h.back.receiver_consume h.joint.own h.joint.back.parity hc⟩
  emit h hp := ⟨h.joint.emit hp, h.there.emit hp, h.back.receiver (fun _ h => h) fun _ => .inl⟩
  lose h hc := ⟨h.joint.lose hc, h.there.receiver (fun _ h => h) fun _ => .inl,
    h.back.receiver (List.subset_cons_self ..) fun _ => .inl⟩

structure Endpoint.Stable (P : Endpoint → Prop) : Prop where
  local_ : ∀ {b b'}, b.Own → Endpoint.Local b b' → P b → P b'
  consume : ∀ {m b b'}, b.Own → Endpoint.Consume m b b' → P b → P b'
  emit : ∀ {b} rest, P b → P { b with queue := rest }

def Endpoint.Frozen (last : UInt32) (e : Endpoint) : Prop :=
  e.goawaySent = true ∧ e.acceptedRemote = last

theorem Endpoint.Frozen.step {last : UInt32} (h : b.Frozen last) (hs : Sends b b' kept added) :
    b'.Frozen last := by
  obtain ⟨hg, hl⟩ := h
  rcases hs.bound with ⟨hg', hacc, -⟩ | ⟨hg', -⟩
  · exact ⟨hg'.trans hg, (hacc hg).trans hl⟩
  · rw [hg] at hg'
    cases hg'

theorem Endpoint.Frozen.stable (last : UInt32) : Stable (Frozen last) where
  local_ ho hs h := by
    obtain ⟨kept, added, hsends⟩ := hs.sends ho
    exact h.step hsends
  consume ho hc h := by
    obtain ⟨kept, added, hsends⟩ := hc.sends ho
    exact h.step hsends
  emit _ h := h

theorem Endpoint.Barred.stable (i : UInt32) : Stable (Barred · i) where
  local_ ho hs h := by
    obtain ⟨kept, added, hsends⟩ := hs.sends ho
    exact h.step (hs.takes ho) (fun _ => hsends.created) hsends.goawaySent
  consume ho hc h := by
    obtain ⟨kept, added, hsends⟩ := hc.sends ho
    exact h.step (hc.takes ho) (fun _ => hsends.created) hsends.goawaySent
  emit _ h := ⟨h.unopened, h.spent⟩

theorem Endpoint.stable_parity (odd : Bool) : Stable (·.ids.localOdd = odd) where
  local_ ho hs h := by
    obtain ⟨kept, added, hsends⟩ := hs.sends ho
    exact hsends.odd.trans h
  consume ho hc h := by
    obtain ⟨kept, added, hsends⟩ := hc.sends ho
    exact hsends.odd.trans h
  emit _ h := h

theorem Endpoint.Stable.lasting {P : Endpoint → Prop} (hP : Stable P) :
    Lasting fun a out inc b => Joint a out inc b ∧ P a where
  joint h := h.1
  local_ h hs := ⟨h.1.local_ hs, hP.local_ h.1.own hs h.2⟩
  consume h hopen hc := ⟨h.1.consume hopen hc, hP.consume h.1.own hc h.2⟩
  emit h hp := ⟨h.1.emit hp, hP.emit _ h.2⟩
  lose h hc := ⟨h.1.lose hc, h.2⟩

end TalkSphere
