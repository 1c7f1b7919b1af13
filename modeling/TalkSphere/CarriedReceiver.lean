import TalkSphere.Carried

/-! The receiver's side of byte delivery, and the invariant over both directions. -/

namespace TalkSphere

open Relation (ReflTransGen)

variable {a a' b b' : Endpoint} {m : Message} {i : UInt32} {channel out inc : List Message}

structure Mute (i : UInt32) (b b' : Endpoint) : Prop where
  received : received i b'.log = received i b.log
  ended : ∀ stream, .remoteEnd stream ∈ trace i b'.log → .remoteEnd stream ∈ trace i b.log

theorem Mute.of_trace (h : trace i b'.log = trace i b.log) : Mute i b b' :=
  ⟨by rw [TalkSphere.received, h]; rfl, fun _ => by rw [h]; exact id⟩

theorem Mute.of_change (hc : Endpoint.Change b b' i)
    (hst : (∃ st, b'.streams i = some st) → ∀ st, b.streams i = some st → st.remoteOpen = true →
      trace i b'.log = trace i b.log) : Mute i b b' := by
  cases hc with
  | same hs ht => exact .of_trace ht
  | opened hfresh hs ht =>
    constructor
    · simp [TalkSphere.received, ht, Event.bytes]
    · intro stream hm
      rw [ht] at hm
      simpa using hm
  | data hst' hr hs ht => exact .of_trace (hst ⟨_, hs⟩ _ hst' hr)
  | ended hst' hr hs ht => exact .of_trace (hst ⟨_, hs⟩ _ hst' hr)
  | closed hst' hs ht hc =>
    constructor
    · simp [TalkSphere.received, ht, Event.bytes]
    · intro stream hm
      rw [ht] at hm
      simpa using hm

namespace Delivery

theorem mute (hd : Delivery a channel b i) (hm : Mute i b b') (hh : b'.Hears i → b.Hears i)
    (hc : b.closed = true → b'.closed = true) : Delivery a channel b' i := by
  have hopen : b'.closed = false → b.closed = false := by
    intro h
    by_contra hcl
    rw [hc (by simpa using hcl)] at h
    cases h
  refine ⟨hm.received ▸ hd.received_le, hd.idle, fun ho h => ?_, fun ho h => ?_, fun ⟨st, h⟩ => ?_⟩
  · rw [hm.received]
    exact hd.flow (hopen ho) (hh h)
  · exact hd.ending (hopen ho) (hh h)
  · rw [hm.received]
    exact hd.finished ⟨st, hm.ended st h⟩

theorem deaf (hd : Delivery a (m :: channel) b i) (hm : Mute i b b')
    (hdeaf : b'.closed = true ∨ ¬ b'.Hears i) : Delivery a channel b' i := by
  have hno : b'.closed = false → b'.Hears i → False := by
    intro ho hh
    rcases hdeaf with h | h
    · rw [h] at ho
      cases ho
    · exact h hh
  refine ⟨hm.received ▸ hd.received_le, hd.idle, fun ho h => (hno ho h).elim,
    fun ho h => (hno ho h).elim, fun ⟨st, h⟩ => ?_⟩
  rw [hm.received]
  exact hd.finished ⟨st, hm.ended st h⟩

theorem drop_head (hd : Delivery a (m :: channel) b i) (hb : carried i [m] = [])
    (he : m ≠ .end_ i) : Delivery a channel b i := by
  have hc : carried i (way a (m :: channel)) = carried i (way a channel) := by
    rw [way_cons, ← List.singleton_append, carried_append, hb, List.nil_append]
  have hend : .end_ i ∈ way a (m :: channel) ↔ .end_ i ∈ way a channel := by
    rw [way_cons, List.mem_cons, or_iff_right fun h => he h.symm]
  refine ⟨hd.received_le, hd.idle, ?_, ?_, hd.finished⟩
  · have hf := hd.flow
    rw [hc, hend] at hf
    exact hf
  · have hf := hd.ending
    rw [hend] at hf
    exact hf

theorem emit {rest : List Message} (hd : Delivery a channel b i)
    (hp : Session.Picks a.queue m rest) :
    Delivery { a with queue := rest } (channel ++ [m]) b i := by
  obtain ⟨pre, post, hq, hr, hid, -⟩ := hp.split
  have hc : carried i (way { a with queue := rest } (channel ++ [m])) = carried i (way a channel) := by
    simp only [way, hq, hr, carried_append, List.append_assoc]
    by_cases hm : m.id = i
    · have hpre : carried i pre = [] :=
        carried_eq_nil fun k hk hki => absurd (hki.trans hm.symm) (hid k hk)
      unfold carried at hpre ⊢
      simp [hpre]
    · simp [carried, hm]
  have hend : .end_ i ∈ way { a with queue := rest } (channel ++ [m]) ↔ .end_ i ∈ way a channel := by
    simp only [way, hq, hr, List.mem_append, List.mem_cons, List.not_mem_nil, or_false]
    tauto
  refine ⟨hd.received_le, hd.idle, ?_, ?_, hd.finished⟩
  · rw [hc, hend]
    exact hd.flow
  · rw [hend]
    exact hd.ending

end Delivery

theorem carried_singleton_ne (h : m.id ≠ i) : carried i [m] = [] := by
  simp [carried, h]

theorem carried_singleton_nil (h : m.bytes = []) : carried i [m] = [] := by
  simp [carried, h]

theorem hears_of_sub (h : b'.Hears i) (hids : b'.ids = b.ids)
    (hst : ∀ st, b'.streams i = some st → st.remoteOpen = true →
      ∃ old, b.streams i = some old ∧ old.remoteOpen = true) : b.Hears i := by
  rcases h with h | ⟨st, hi, hr⟩
  · exact .inl (hids ▸ h)
  · exact .inr (hst st hi hr)

theorem hears_of_drop {id : UInt32} (h : b'.Hears i) (hids : b'.ids = b.ids)
    (hs : b'.streams = Function.update b.streams id none) : b.Hears i :=
  hears_of_sub h hids fun st hi hr => ⟨st, update_none_sub (by rw [← hs]; exact hi), hr⟩

theorem hears_of_created {id : UInt32} (h : b'.Hears i) (hfresh : b.ids.wasCreated id = false)
    (hw : ∀ j, b'.ids.wasCreated j = true ↔ b.ids.wasCreated j = true ∨ j = id)
    (hs : ∀ j, j ≠ id → b'.streams j = b.streams j) : b.Hears i := by
  by_cases hi : i = id
  · exact .inl (hi ▸ hfresh)
  · rcases h with h | ⟨st, hst, hr⟩
    · left
      rw [← Bool.not_eq_true, hw] at h
      simpa [hi] using h
    · exact .inr ⟨st, hs i hi ▸ hst, hr⟩

theorem Endpoint.Local.hears (hb : b.Own) (h : Endpoint.Local b b') (hh : b'.Hears i) :
    b.Hears i := by
  cases h with
  | note | probe | send | drain => exact hh
  | @open_ id ids context stream protocol hopen hsent hpeer hid hs =>
    exact hears_of_created hh (StreamIds.allocate_fresh hb.ids hid)
      (StreamIds.wasCreated_allocate hb.ids hid) fun j hj => Function.update_of_ne hj _ _
  | @end_ id st hopen hstream hl =>
    refine hears_of_sub hh rfl fun new hi hr => ?_
    simp only [Function.update_apply] at hi
    split at hi
    case isTrue he =>
      cases hi
      exact ⟨st, he ▸ hstream, hr⟩
    case isFalse => exact ⟨new, hi, hr⟩
  | reported id =>
    refine hears_of_sub hh rfl fun new hi hr => ?_
    simp only [Function.update_apply] at hi
    split at hi
    case isTrue he =>
      obtain ⟨old, hold, rfl⟩ := Option.map_eq_some_iff.mp hi
      exact ⟨old, he ▸ hold, hr⟩
    case isFalse => exact ⟨new, hi, hr⟩
  | completed => exact hears_of_drop hh rfl rfl
  | stop => exact hears_of_drop hh rfl rfl
  | close response hopen =>
    exact hears_of_sub hh rfl fun st hi _ => by simp [Endpoint.shut] at hi

theorem Endpoint.Local.mute (hb : b.Own) (h : Endpoint.Local b b') : Mute i b b' := by
  refine .of_change (hb.change_local h) fun ⟨st', hst'⟩ st hst hr => ?_
  cases h with
  | note events hopen hping =>
    refine (trace_append ..).trans ?_
    rw [trace_eq_nil (l := events) fun ev hev => ?_, List.append_nil]
    obtain ⟨c, t, r, rfl⟩ := hping ev hev
    rfl
  | @open_ id ids context stream protocol hopen hsent hpeer hid hs =>
    have hne : stream.wireId ≠ i := fun he => by
      have := StreamIds.allocate_fresh hb.ids hid
      rw [← hs, he, hb.created hst] at this
      cases this
    refine (trace_append ..).trans ?_
    rw [trace_single _ (e := .streamOpened context stream protocol) rfl, if_neg hne, List.append_nil]
  | @completed id st₀ hopen hstream =>
    have hne : st₀.handle.wireId ≠ i := fun he => by
      rw [hb.keyed hstream] at he
      subst he
      simp at hst'
    refine (trace_append ..).trans ?_
    rw [trace_single _ (e := .streamClosed st₀.handle .completed) rfl, if_neg hne, List.append_nil]
  | @stop id st₀ outcome reply hopen hstream =>
    have hne : st₀.handle.wireId ≠ i := fun he => by
      rw [hb.keyed hstream] at he
      subst he
      simp [Endpoint.drop] at hst'
    refine (trace_append ..).trans ?_
    rw [trace_single _ (e := .streamClosed st₀.handle outcome) rfl, if_neg hne, List.append_nil]
  | close => cases hst'
  | probe | send | end_ | reported | drain => rfl

theorem Mute.of_event {ev : Event} (hl : b'.log = b.log ++ [ev])
    (he : ev.bytes = [] ∧ (∀ stream, ev ≠ .remoteEnd stream) ∨ onStream i ev = false) :
    Mute i b b' := by
  have ht : trace i b'.log = trace i b.log ++ trace i [ev] := by rw [hl, trace_append]
  rcases he with ⟨hb, hn⟩ | ho
  · constructor
    · rw [hl, received_append]
      have : TalkSphere.received i [ev] = [] := by
        rw [TalkSphere.received, List.flatMap_eq_nil_iff]
        intro x hx
        rw [List.mem_singleton.mp (List.mem_filter.mp hx).1]
        exact hb
      rw [this, List.append_nil]
    · intro stream hm
      rw [ht] at hm
      refine (List.mem_append.mp hm).resolve_right fun hx => ?_
      exact hn stream (List.mem_singleton.mp (List.mem_filter.mp hx).1).symm
  · refine .of_trace ?_
    rw [ht]
    simp [trace, ho]

theorem not_hears {id : UInt32} {st : StreamState} (hb : b.Own) (hst : b.streams id = some st)
    (hids : b'.ids = b.ids) (hs : ∀ st', b'.streams id = some st' → st'.remoteOpen = false) :
    ¬ b'.Hears id := by
  rintro (h | ⟨st', hi, hr⟩)
  · rw [hids, hb.created hst] at h
    cases h
  · rw [hs st' hi] at hr
    cases hr

theorem onStream_of_ne {ev : Event} {stream : StreamHandle} (he : ev.stream? = some stream)
    (hi : stream.wireId ≠ i) : onStream i ev = false := by
  simp [onStream, he, hi]

namespace Delivery

theorem data {id : UInt32} {bytes : List UInt8} {st : StreamState}
    (hd : Delivery a (.data id bytes :: channel) b id) (hb : b.Own) (hopen : b.closed = false)
    (hst : b.streams id = some st) (hr : st.remoteOpen = true)
    (hl : b'.log = b.log ++ [.data st.handle bytes]) : Delivery a channel b' id := by
  have hrec : received id b'.log = received id b.log ++ bytes := by
    rw [hl, received_append]
    simp [received, trace_single _ (e := .data st.handle bytes) rfl, hb.keyed hst, Event.bytes]
  have hcar : carried id (way a (.data id bytes :: channel)) = bytes ++ carried id (way a channel) := by
    simp [way_cons, carried, Message.id, Message.bytes]
  have hend : .end_ id ∈ way a (.data id bytes :: channel) ↔ .end_ id ∈ way a channel := by
    simp [way_cons]
  have hh : b.Hears id := .inr ⟨st, hst, hr⟩
  have hflow := hd.flow hopen hh
  rw [hcar, hend, ← List.append_assoc, ← hrec] at hflow
  have hle : received id b'.log <+: accepted id a.sends := (List.prefix_append _ _).trans hflow.1
  refine ⟨hle, hd.idle, fun _ _ => hflow, fun _ _ st' hi hl' => ?_, fun hlast => ?_⟩
  · exact hend.mp (hd.ending hopen hh st' hi hl')
  · obtain ⟨stream, hm⟩ := hlast
    have hm' : .remoteEnd stream ∈ trace id b.log := by
      rw [hl, trace_append] at hm
      refine (List.mem_append.mp hm).resolve_right fun hx => ?_
      cases List.mem_singleton.mp (List.mem_filter.mp hx).1
    obtain ⟨heq, hrest⟩ := hd.finished ⟨stream, hm'⟩
    refine ⟨?_, hrest⟩
    exact hle.eq_of_length_le (by rw [← heq, hrec]; simp)

theorem ended {id : UInt32} {st : StreamState} (hd : Delivery a (.end_ id :: channel) b id)
    (hf : Flow a (.end_ id :: channel) b) (hb : b.Own) (hopen : b.closed = false)
    (hst : b.streams id = some st) (hr : st.remoteOpen = true) (hids : b'.ids = b.ids)
    (hs : b'.streams id = some { st with remoteOpen := false })
    (hl : b'.log = b.log ++ [.remoteEnd st.handle]) : Delivery a channel b' id := by
  have hrec : received id b'.log = received id b.log := by
    rw [hl, received_append]
    simp [received, trace_single _ (e := .remoteEnd st.handle) rfl, hb.keyed hst, Event.bytes]
  have hin : .end_ id ∈ way a (.end_ id :: channel) := List.mem_cons_self
  have h0 : id ≠ 0 := hf.end_ne_zero hin
  have hnot : ¬ b'.Hears id := not_hears hb hst hids fun st' hi => by
    rw [hs] at hi
    cases hi
    rfl
  have hceil : 2 < a.ceiling id := hf.below _ hin h0
  refine ⟨hrec ▸ hd.received_le, hd.idle, fun _ h => (hnot h).elim, fun _ h => (hnot h).elim,
    fun _ => ⟨?_, Endpoint.ceiling_pos hceil, fun st' hi => Endpoint.localOpen_of_ceiling hi hceil⟩⟩
  have heq := (hd.flow hopen (.inr ⟨st, hst, hr⟩)).2 (.inr hin)
  have hnil : carried id (way a (.end_ id :: channel)) = [] := by
    have hrest : carried id (way a channel) = [] :=
      carried_after_end h0 [.end_ id] (way a channel) hf.order (by simp)
    rw [way_cons, ← List.singleton_append, carried_append, hrest]
    simp [carried, Message.bytes]
  rw [hnil, List.append_nil] at heq
  rw [hrec, heq]

theorem consume (hd : Delivery a (m :: channel) b i) (hf : Flow a (m :: channel) b) (hb : b.Own)
    (hopen : b.closed = false) (hc : Endpoint.Consume m b b') : Delivery a channel b' i := by
  cases hc with
  | @admitted _ id ids context stream protocol _ hsent hpeer hid hs =>
    refine (hd.drop_head (carried_singleton_nil rfl) (by rintro ⟨⟩)).mute
      (.of_event rfl (.inl ⟨rfl, by rintro _ ⟨⟩⟩)) (fun h => ?_) fun h => h
    exact hears_of_created h (StreamIds.accept_fresh hb.ids hid)
      (StreamIds.wasCreated_accept hb.ids hid) fun j hj => Function.update_of_ne hj _ _
  | @refused _ id ids reply _ hid hr =>
    refine (hd.drop_head (carried_singleton_nil rfl) (by rintro ⟨⟩)).mute (.of_trace rfl) (fun h => ?_)
      fun h => h
    exact hears_of_created h (StreamIds.accept_fresh hb.ids hid)
      (StreamIds.wasCreated_accept hb.ids hid) fun j hj => rfl
  | @data _ id st bytes _ hstream hr =>
    by_cases hi : id = i
    · subst hi
      exact hd.data hb hopen hstream hr rfl
    · refine (hd.drop_head (carried_singleton_ne hi) (by rintro ⟨⟩)).mute (.of_event rfl (.inr ?_))
        (fun h => h) fun h => h
      exact onStream_of_ne rfl (by rw [hb.keyed hstream]; exact hi)
  | @overflow _ id st bytes outcome reply _ hstream =>
    by_cases hi : id = i
    · subst hi
      refine hd.deaf (.of_event rfl (.inl ⟨rfl, by rintro _ ⟨⟩⟩)) (.inr (not_hears hb hstream rfl ?_))
      intro st' h
      simp [Endpoint.drop] at h
    · exact (hd.drop_head (carried_singleton_ne hi) (by rintro ⟨⟩)).mute
        (.of_event rfl (.inl ⟨rfl, by rintro _ ⟨⟩⟩)) (fun h => hears_of_drop h rfl rfl) fun h => h
  | @end_ _ id st _ hstream hr =>
    by_cases hi : id = i
    · subst hi
      exact hd.ended hf hb hopen hstream hr rfl (Function.update_self ..) rfl
    · refine (hd.drop_head (carried_singleton_nil rfl) (fun h => hi (Message.end_.inj h))).mute
        (.of_event rfl (.inr (onStream_of_ne rfl (by rw [hb.keyed hstream]; exact hi))))
        (fun h => hears_of_sub h rfl fun new hst hr' => ?_) fun h => h
      simp only [Function.update_of_ne (Ne.symm hi)] at hst
      exact ⟨new, hst, hr'⟩
  | stop _ hstream =>
    exact (hd.drop_head (carried_singleton_nil rfl) (by rintro ⟨⟩)).mute
      (.of_event rfl (.inl ⟨rfl, by rintro _ ⟨⟩⟩)) (fun h => hears_of_drop h rfl rfl) fun h => h
  | ignored _ h0 hm hcr hnone =>
    by_cases hi : m.id = i
    · subst hi
      refine hd.deaf (.of_trace rfl) (.inr ?_)
      rintro (h | ⟨st, hst, -⟩)
      · rw [hcr] at h
        cases h
      · rw [hnone] at hst
        cases hst
    · exact hd.drop_head (carried_singleton_ne hi) fun h => hi (by rw [h]; rfl)
  | @goAway _ last code events _ hlog hevents =>
    refine (hd.drop_head (carried_singleton_nil rfl) (by rintro ⟨⟩)).mute ?_ (fun h => ?_) fun h => h
    · refine .of_change (hb.change_consume (m := .goAway last code) (.goAway hopen hlog hevents)) fun hnew st hst hr => ?_
      obtain ⟨st', hst'⟩ := hnew
      refine (trace_append ..).trans ?_
      simp only at hst'
      split at hst'
      case isTrue => cases hst'
      case isFalse hn => rw [hlog i, if_neg hn, List.append_nil]
    · refine hears_of_sub h rfl fun st hst hr => ?_
      simp only at hst
      split at hst
      · cases hst
      · exact ⟨st, hst, hr⟩
  | probe => exact hd.drop_head (carried_singleton_nil rfl) (by rintro ⟨⟩)
  | fatal _ hc =>
    refine hd.deaf (.of_change (hb.change_consume (.fatal hopen hc)) ?_) (.inl rfl)
    rintro ⟨st', hst'⟩
    cases hst'

end Delivery

structure Transfer (a : Endpoint) (out inc : List Message) (b : Endpoint) : Prop where
  joint : Joint a out inc b
  there : ∀ i, Delivery a out b i
  back : ∀ i, Delivery b inc a i

namespace Transfer

theorem symm (h : Transfer a out inc b) : Transfer b inc out a := ⟨h.joint.symm, h.back, h.there⟩

theorem local_ (h : Transfer a out inc b) (hs : Endpoint.Local a a') : Transfer a' out inc b := by
  have ha := h.joint.own
  refine ⟨h.joint.local_ hs, fun i => ?_, fun i => ?_⟩
  · obtain ⟨kept, added, hsends⟩ := hs.sends ha
    exact (h.there i).sends h.joint.there.live hsends.created ha (hs.carries ha)
  · exact (h.back i).mute (hs.mute ha) (hs.hears ha) (hs.settles ha).closed

theorem consume (h : Transfer a out (m :: inc) b) (hopen : a.closed = false)
    (hc : Endpoint.Consume m a a') : Transfer a' out inc b := by
  have ha := h.joint.own
  refine ⟨h.joint.consume hopen hc, fun i => ?_, fun i => ?_⟩
  · obtain ⟨kept, added, hsends⟩ := hc.sends ha
    exact (h.there i).sends h.joint.there.live hsends.created ha (hc.carries ha)
  · exact (h.back i).consume (h.joint.back.live hopen) ha hopen hc

theorem emit {rest : List Message} (h : Transfer a out inc b)
    (hp : Session.Picks a.queue m rest) :
    Transfer { a with queue := rest } (out ++ [m]) inc b :=
  ⟨h.joint.emit hp, fun i => (h.there i).emit hp,
    fun i => (h.back i).mute (.of_trace rfl) (fun h => h) fun h => h⟩

theorem lose (h : Transfer a out (m :: inc) b) (hc : a.closed = true) : Transfer a out inc b :=
  ⟨h.joint.lose hc, h.there, fun i => (h.back i).deaf (.of_trace rfl) (.inl hc)⟩

theorem lasting : Lasting Transfer where
  joint h := h.joint
  local_ := local_
  consume := consume
  emit := emit
  lose := lose

end Transfer

end TalkSphere
