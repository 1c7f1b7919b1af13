import TalkSphere.Endpoint

/-! What every step of an endpoint keeps, whatever its peer sends, and how one
step changes the life of one stream. -/

namespace TalkSphere

open Relation (ReflTransGen)

namespace Endpoint

structure Own (e : Endpoint) : Prop where
  ids : e.ids.Valid
  created : ∀ {i : UInt32} {st : StreamState}, e.streams i = some st → e.ids.wasCreated i = true
  keyed : ∀ {i : UInt32} {st : StreamState}, e.streams i = some st → st.handle.wireId = i
  written : ∀ {i : UInt32} {st : StreamState}, e.streams i = some st → st.localEndWritten = true →
    st.localOpen = false ∧ i ∈ e.reports
  closed : e.closed = true → ∀ i, e.streams i = none
  accepted : e.acceptedRemote = 0 ∨
    StreamIds.ofParity (!e.ids.localOdd) e.acceptedRemote = true ∧
      e.acceptedRemote ≤ e.ids.greatestRemote

variable {e e' : Endpoint}

theorem Own.of_sub (ho : Own e) (hids : e'.ids = e.ids) (hacc : e'.acceptedRemote = e.acceptedRemote)
    (hcl : e'.closed = true → ∀ i, e'.streams i = none)
    (hsub : ∀ {i : UInt32} {st : StreamState}, e'.streams i = some st → ∃ old,
      e.streams i = some old ∧ st.handle = old.handle ∧
      (st.localEndWritten = true → st.localOpen = false ∧ i ∈ e'.reports)) : Own e' := by
  refine ⟨hids ▸ ho.ids, fun hst => ?_, fun hst => ?_, fun hst => ?_, hcl, ?_⟩
  · obtain ⟨old, hold, -⟩ := hsub hst
    exact hids ▸ ho.created hold
  · obtain ⟨old, hold, hh, -⟩ := hsub hst
    exact hh ▸ ho.keyed hold
  · obtain ⟨old, hold, -, hw⟩ := hsub hst
    exact hw
  · rw [hids, hacc]
    exact ho.accepted

theorem Own.of_same (ho : Own e) (hids : e'.ids = e.ids) (hacc : e'.acceptedRemote = e.acceptedRemote)
    (hrep : e'.reports = e.reports) (hcl : e'.closed = e.closed)
    (hst : e'.streams = e.streams) : Own e' :=
  ⟨hids ▸ ho.ids, hst ▸ hids ▸ ho.created, hst ▸ ho.keyed, hst ▸ hrep ▸ ho.written,
    hst ▸ hcl ▸ ho.closed, hids ▸ hacc ▸ ho.accepted⟩

theorem Own.drop (ho : Own e) (id : UInt32) (hids : e'.ids = e.ids)
    (hacc : e'.acceptedRemote = e.acceptedRemote) (hrep : e'.reports = e.reports)
    (hcl : e'.closed = e.closed) (hst : e'.streams = Function.update e.streams id none) : Own e' := by
  refine ho.of_sub hids hacc (fun hc i => ?_)
    (fun {i st} hi => ?_)
  · rw [hst, Function.update_apply, ho.closed (hcl ▸ hc) i, ite_self]
  · rw [hst, Function.update_apply] at hi
    split at hi
    · cases hi
    · exact ⟨st, hi, rfl, hrep ▸ ho.written hi⟩

theorem Own.edit (ho : Own e) {id : UInt32} {st : StreamState} (st' : StreamState) (hid : e.streams id = some st)
    (hh : st'.handle = st.handle) (hids : e'.ids = e.ids)
    (hw : st'.localEndWritten = true → st'.localOpen = false ∧ id ∈ e'.reports)
    (hacc : e'.acceptedRemote = e.acceptedRemote) (hrep : e.reports ⊆ e'.reports)
    (hcl : e'.closed = false) (hst : e'.streams = Function.update e.streams id (some st')) :
    Own e' := by
  refine ho.of_sub hids hacc (by simp [hcl]) (fun {i new} hi => ?_)
  rw [hst, Function.update_apply] at hi
  split at hi
  case isTrue he =>
    cases hi
    exact ⟨st, he ▸ hid, hh, he ▸ hw⟩
  case isFalse =>
    exact ⟨new, hi, rfl, fun h => ⟨(ho.written hi h).1, hrep (ho.written hi h).2⟩⟩

theorem Own.shut (ho : Own e) (events : List Event) (response : Option ErrorCode) :
    Own (e.shut events response) :=
  ⟨ho.ids, fun h => by simp [Endpoint.shut] at h, fun h => by simp [Endpoint.shut] at h,
    fun h => by simp [Endpoint.shut] at h, fun _ _ => rfl, ho.accepted⟩

theorem Own.enroll (ho : Own e) {id : UInt32} {ids : StreamIds} {stream : StreamHandle}
    (hv : ids.Valid) (hc : ∀ j, ids.wasCreated j = true ↔ e.ids.wasCreated j = true ∨ j = id)
    (hs : stream.wireId = id) (hids : e'.ids = ids) (hopen : e'.closed = false)
    (hrep : e'.reports = e.reports)
    (hst : e'.streams = Function.update e.streams id (some ⟨stream, true, true, false⟩))
    (hacc : e'.acceptedRemote = 0 ∨ StreamIds.ofParity (!ids.localOdd) e'.acceptedRemote = true ∧
      e'.acceptedRemote ≤ ids.greatestRemote) : Own e' := by
  have hcase : ∀ {i st}, e'.streams i = some st →
      (i = id ∧ st = ⟨stream, true, true, false⟩) ∨ e.streams i = some st := by
    intro i st hi
    rw [hst, Function.update_apply] at hi
    split at hi
    case isTrue he =>
      cases hi
      exact .inl ⟨he, rfl⟩
    case isFalse => exact .inr hi
  refine ⟨hids ▸ hv, fun hi => ?_, fun hi => ?_, fun hi hw => ?_, by simp [hopen], hids ▸ hacc⟩
  · rw [hids, hc]
    rcases hcase hi with ⟨he, -⟩ | hi
    · exact .inr he
    · exact .inl (ho.created hi)
  · rcases hcase hi with ⟨rfl, rfl⟩ | hi
    · exact hs
    · exact ho.keyed hi
  · rcases hcase hi with ⟨rfl, rfl⟩ | hi
    · cases hw
    · exact hrep ▸ ho.written hi hw

theorem Own.local_ (ho : Own e) (h : Local e e') : Own e' := by
  cases h with
  | note events => exact ho.of_same rfl rfl rfl rfl rfl
  | probe => exact ho.of_same rfl rfl rfl rfl rfl
  | open_ context stream protocol hopen hsent hpeer hid hs =>
    obtain ⟨-, hids⟩ := StreamIds.allocate_ok hid
    refine ho.enroll (ho.ids.allocate hid) (StreamIds.wasCreated_allocate ho.ids hid) hs rfl hopen
      rfl rfl ?_
    rw [hids]
    exact ho.accepted
  | send hopen hstream hl hb => exact ho.of_same rfl rfl rfl rfl rfl
  | @end_ _ state hopen hstream hl =>
    exact ho.edit { state with localOpen := false } hstream rfl rfl
      (fun hw => ⟨rfl, (ho.written hstream hw).2⟩) rfl (List.Subset.refl _) hopen rfl
  | reported id =>
    refine ho.of_sub rfl rfl (fun hc i => ?_) (fun {i st} hi => ?_)
    · have hn : ∀ j, e.streams j = none := ho.closed hc
      simp [Function.update_apply, hn]
    · simp only [Function.update_apply] at hi
      split at hi
      case isTrue he =>
        obtain ⟨old, hold, rfl⟩ := Option.map_eq_some_iff.mp hi
        exact ⟨old, he ▸ hold, rfl, fun hw => ⟨by simpa using hw, by simp [he]⟩⟩
      case isFalse =>
        exact ⟨st, hi, rfl, fun hw => ⟨(ho.written hi hw).1, by simp [(ho.written hi hw).2]⟩⟩
  | completed hopen hstream hr hw => exact ho.drop _ rfl rfl rfl rfl rfl
  | stop reply hopen hstream => exact ho.drop _ rfl rfl rfl rfl rfl
  | drain code => exact ho.of_same rfl rfl rfl rfl rfl
  | close response => exact ho.shut _ _

theorem Own.consume {m : Message} (ho : Own e) (h : Consume m e e') : Own e' := by
  cases h with
  | admitted context stream protocol hopen hsent hpeer hid hs =>
    obtain ⟨hn, hids⟩ := StreamIds.accept_ok hid
    obtain ⟨hp, -, -⟩ := StreamIds.following_eq_some ho.ids.remote_parity (ho.ids.next_remote ▸ hn)
    refine ho.enroll (ho.ids.accept hid) (StreamIds.wasCreated_accept ho.ids hid) hs rfl hopen
      rfl rfl ?_
    rw [hids]
    exact .inr ⟨hp, UInt32.le_refl _⟩
  | refused reply hopen hid hr =>
    obtain ⟨hn, hids⟩ := StreamIds.accept_ok hid
    obtain ⟨-, hlt, -⟩ := StreamIds.following_eq_some ho.ids.remote_parity (ho.ids.next_remote ▸ hn)
    refine ⟨ho.ids.accept hid, fun hi => ?_, ho.keyed, ho.written, ho.closed, ?_⟩
    · exact (StreamIds.wasCreated_accept ho.ids hid _).mpr (.inl (ho.created hi))
    · rw [hids]
      refine ho.accepted.imp_right fun ha => ⟨ha.1, ?_⟩
      exact UInt32.le_trans ha.2 (UInt32.le_of_lt hlt)
  | data => exact ho.of_same rfl rfl rfl rfl rfl
  | overflow => exact ho.drop _ rfl rfl rfl rfl rfl
  | @end_ _ id state hopen hstream hr =>
    have hw := ho.written hstream
    exact ho.edit { state with remoteOpen := false } hstream rfl rfl hw rfl
      (List.Subset.refl _) hopen rfl
  | stop => exact ho.drop _ rfl rfl rfl rfl rfl
  | ignored => exact ho
  | goAway hopen hlog hevents =>
    refine ho.of_sub rfl rfl (by simp [hopen]) (fun {i st} hi => ?_)
    simp only at hi
    split at hi
    · cases hi
    · exact ⟨st, hi, rfl, ho.written hi⟩
  | probe => exact ho
  | fatal => exact ho.shut _ _

theorem Own.free (ho : Own e) (h : Free e e') : Own e' := by
  cases h with
  | own h => exact ho.local_ h
  | read h => exact ho.consume h
  | forced h =>
    cases h with
    | fail => exact ho.drop _ rfl rfl rfl rfl rfl
    | close => exact ho.shut _ _
  | popped queue => exact ho.of_same rfl rfl rfl rfl rfl

inductive Change (e e' : Endpoint) (i : UInt32) : Prop
  | same (hs : (e'.streams i).map (fun st => (st.handle, st.remoteOpen)) =
        (e.streams i).map fun st => (st.handle, st.remoteOpen))
      (ht : trace i e'.log = trace i e.log)
  | opened {context : PeerContext} {stream : StreamHandle} {protocol : Protocol}
      (hfresh : e.ids.wasCreated i = false)
      (hs : e'.streams i = some ⟨stream, true, true, false⟩)
      (ht : trace i e'.log = trace i e.log ++ [.streamOpened context stream protocol])
  | data {st : StreamState} {bytes : List UInt8} (hst : e.streams i = some st)
      (hr : st.remoteOpen = true) (hs : e'.streams i = some st)
      (ht : trace i e'.log = trace i e.log ++ [.data st.handle bytes])
  | ended {st : StreamState} (hst : e.streams i = some st) (hr : st.remoteOpen = true)
      (hs : e'.streams i = some { st with remoteOpen := false })
      (ht : trace i e'.log = trace i e.log ++ [.remoteEnd st.handle])
  | closed {st : StreamState} {outcome : StreamOutcome} (hst : e.streams i = some st)
      (hs : e'.streams i = none)
      (ht : trace i e'.log = trace i e.log ++ [.streamClosed st.handle outcome])
      (hc : outcome = .completed → st.remoteOpen = false ∧ st.localEndWritten = true)

variable {i : UInt32}

theorem Change.of_log (hs : e'.streams = e.streams) {events : List Event}
    (hl : e'.log = e.log ++ events) (hn : ∀ ev ∈ events, ev.stream? = none) : Change e e' i := by
  refine .same (by rw [hs]) ?_
  rw [hl, trace_append, trace_eq_nil hn, List.append_nil]

theorem Change.of_drop (ho : Own e) {id : UInt32} {st : StreamState} {outcome : StreamOutcome}
    (hst : e.streams id = some st) (hs : e'.streams = Function.update e.streams id none)
    (hl : e'.log = e.log ++ [.streamClosed st.handle outcome])
    (hc : outcome = .completed → st.remoteOpen = false ∧ st.localEndWritten = true) :
    Change e e' i := by
  have ht := trace_single i (e := .streamClosed st.handle outcome) rfl
  rw [ho.keyed hst] at ht
  by_cases hi : id = i
  · subst hi
    refine .closed hst (by rw [hs, Function.update_self]) ?_ hc
    rw [hl, trace_append, ht, if_pos rfl]
  · refine .same (by rw [hs, Function.update_of_ne (Ne.symm hi)]) ?_
    rw [hl, trace_append, ht, if_neg hi, List.append_nil]

theorem Change.of_enroll {id : UInt32} {context : PeerContext} {stream : StreamHandle}
    {protocol : Protocol} (hfresh : e.ids.wasCreated id = false) (hw : stream.wireId = id)
    (hs : e'.streams = Function.update e.streams id (some ⟨stream, true, true, false⟩))
    (hl : e'.log = e.log ++ [.streamOpened context stream protocol]) : Change e e' i := by
  have ht := trace_single i (e := .streamOpened context stream protocol) rfl
  rw [hw] at ht
  by_cases hi : id = i
  · subst hi
    have hlog : trace id e'.log = trace id e.log ++ [.streamOpened context stream protocol] := by
      rw [hl, trace_append, ht, if_pos rfl]
    exact .opened hfresh (by rw [hs, Function.update_self]) hlog
  · refine .same (by rw [hs, Function.update_of_ne (Ne.symm hi)]) ?_
    rw [hl, trace_append, ht, if_neg hi, List.append_nil]

theorem Change.of_shut {failure : Failure} {events : List Event}
    (hc : Closing e failure events) (response : Option ErrorCode) :
    Change e (e.shut events response) i := by
  have ht := hc.onStreams i
  cases hst : e.streams i with
  | none =>
    refine .same (by simp [Endpoint.shut, hst]) ?_
    simp [Endpoint.shut, trace_append, ht, hst]
  | some st =>
    have hlog : trace i (e.shut events response).log =
        trace i e.log ++ [.streamClosed st.handle (.failed failure)] := by
      simp [Endpoint.shut, trace_append, ht, hst]
    exact .closed hst rfl hlog (by simp)

theorem Own.change_local (ho : Own e) (h : Local e e') : Change e e' i := by
  cases h with
  | note events hopen hping =>
    refine .of_log rfl rfl fun ev hev => ?_
    obtain ⟨c, t, r, rfl⟩ := hping ev hev
    rfl
  | probe => exact .same rfl rfl
  | open_ context stream protocol hopen hsent hpeer hid hs =>
    exact .of_enroll (StreamIds.allocate_fresh ho.ids hid) hs rfl rfl
  | send => exact .same rfl rfl
  | @end_ id st hopen hstream hl =>
    refine .same ?_ rfl
    by_cases hi : i = id
    · subst hi
      simp [hstream]
    · simp [hi]
  | reported id =>
    refine .same ?_ rfl
    by_cases hi : i = id
    · subst hi
      simp [Function.comp_def]
    · simp [hi]
  | completed hopen hstream hr hw =>
    exact .of_drop ho hstream rfl rfl fun _ => ⟨hr, hw⟩
  | stop reply hopen hstream hp hc =>
    exact .of_drop ho hstream rfl rfl fun h => absurd h hc
  | drain => exact .same rfl rfl
  | close response hopen hc => exact .of_shut hc response

theorem Own.change_consume {m : Message} (ho : Own e) (h : Consume m e e') : Change e e' i := by
  cases h with
  | admitted context stream protocol hopen hsent hpeer hid hs =>
    exact .of_enroll (StreamIds.accept_fresh ho.ids hid) hs rfl rfl
  | refused => exact .same rfl rfl
  | @data _ id st bytes hopen hstream hr =>
    have ht := trace_single i (e := .data st.handle bytes) rfl
    rw [ho.keyed hstream] at ht
    by_cases hi : id = i
    · subst hi
      have hlog : trace id (e.log ++ [.data st.handle bytes]) =
          trace id e.log ++ [.data st.handle bytes] := by
        simp [trace_append, ht]
      exact .data hstream hr hstream hlog
    · exact .same rfl (by simp [trace_append, ht, hi])
  | overflow reply hopen hstream hp hc =>
    exact .of_drop ho hstream rfl rfl fun h => absurd h hc
  | @end_ _ id st hopen hstream hr =>
    have ht := trace_single i (e := .remoteEnd st.handle) rfl
    rw [ho.keyed hstream] at ht
    by_cases hi : id = i
    · subst hi
      refine .ended hstream hr (by simp) ?_
      simp [trace_append, ht]
    · exact .same (by simp [Ne.symm hi]) (by simp [trace_append, ht, hi])
  | stop hopen hstream hc => exact .of_drop ho hstream rfl rfl fun h => absurd h hc
  | ignored => exact .same rfl rfl
  | @goAway _ last code events hopen hlog hevents =>
    have ht := hlog i
    by_cases hi : e.ids.isLocal i = true ∧ last < i
    · rw [if_pos hi] at ht
      cases hst : e.streams i with
      | none => exact .same (by simp [hst]) (by simp [trace_append, ht, hst])
      | some st =>
        have hlog : trace i (e.log ++ events) =
            trace i e.log ++ [.streamClosed st.handle (.failed ⟨.peer, .refused⟩)] := by
          simp [trace_append, ht, hst]
        exact .closed hst (by simp [hi]) hlog (by simp)
    · rw [if_neg hi] at ht
      exact .same (by simp [hi]) (by simp [trace_append, ht])
  | probe => exact .same rfl rfl
  | fatal hopen hc => exact .of_shut hc none

theorem Own.change (ho : Own e) (h : Free e e') : Change e e' i := by
  cases h with
  | own h => exact ho.change_local h
  | read h => exact ho.change_consume h
  | forced h =>
    cases h with
    | fail reply hopen hstream hc => exact .of_drop ho hstream rfl rfl fun h => absurd h hc
    | close response hopen hc => exact .of_shut hc response
  | popped queue => exact .same rfl rfl

end Endpoint

end TalkSphere
