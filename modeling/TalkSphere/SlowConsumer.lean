import Mathlib.Algebra.Order.BigOperators.Group.List
import TalkSphere.Carried
import TalkSphere.Isolation

/-! A consumer that does not read its events, and what the other consumers of the
same session notice of it. -/

namespace TalkSphere

open Relation (ReflTransGen)

namespace Session

variable {s : Session}

def delivers (s : Session) (owner : StreamOwner) (e : Event) : Bool :=
  e.stream?.any fun stream => (stream.authorize s.handle.id owner).isOk

def without (s : Session) (owner : StreamOwner) : Session :=
  { s with events := s.events.filter fun e => !s.delivers owner e }

theorem twin_without (s : Session) (owner : StreamOwner) :
    Twin (fun e => !s.delivers owner e) s (s.without owner) :=
  ⟨_, rfl, by simp [List.filter_filter]⟩

theorem popStreamEvent_eq (s : Session) (owner : StreamOwner) :
    (s.popStreamEvent owner).2 = { s with events := s.events.eraseP (s.delivers owner) } := by
  rw [List.eraseP_eq_eraseIdx]
  unfold popStreamEvent delivers
  split
  case h_1 hn => rw [hn]
  case h_2 hn => rw [hn]

end Session

namespace Party

variable {p p' : Party}

theorem run_unread (hs : p.session.Sound) (h : p.session.events.Sublist p.log) (c : Call) :
    (p.run c).session.events.Sublist (p.run c).log := by
  rw [run_log]
  rcases (run_turn hs.ids c).events with hless | ⟨more, hm⟩
  · exact (hless.trans h).trans (List.sublist_append_left ..)
  · rw [← hm, List.drop_left]
    exact h.append_right more

theorem steps_unread (hs : p.session.Sound) (h : p.session.events.Sublist p.log)
    (hp : ReflTransGen Step p p') : p'.session.events.Sublist p'.log := by
  have hinv : p'.session.Sound ∧ p'.session.events.Sublist p'.log := by
    induction hp with
    | refl => exact ⟨hs, h⟩
    | tail _ hstep ih =>
      obtain ⟨c, -, rfl⟩ := hstep
      exact ⟨(run_free ih.1 c).1, run_unread ih.1 ih.2 c⟩
  exact hinv.2

end Party

def Event.load (id : UInt32) : Event → Nat
  | .data stream bytes => if stream.wireId = id then bytes.length else 0
  | _ => 0

theorem Session.buffered_eq (s : Session) (id : UInt32) :
    s.buffered id = (s.events.map (Event.load id)).sum := by
  unfold buffered
  congr 1

theorem received_length (id : UInt32) (log : List Event) :
    (received id log).length = (log.map (Event.load id)).sum := by
  induction log with
  | nil => rfl
  | cons e log ih =>
    rw [← List.singleton_append, received_append, List.length_append, ih, List.singleton_append, List.map_cons,
      List.sum_cons]
    congr 1
    cases e with
    | data stream bytes =>
      by_cases hi : stream.wireId = id <;>
        simp [received, trace, onStream, Event.stream?, Event.load, Event.bytes, hi]
    | _ =>
      simp only [received, trace, List.filter_cons, List.filter_nil, Event.load]
      split <;> simp [Event.bytes]

theorem sum_load_filter {id : UInt32} {seen : Event → Bool} {es : List Event}
    (h : ∀ stream bytes, .data stream bytes ∈ es → stream.wireId = id →
      seen (.data stream bytes) = true) :
    ((es.filter seen).map (Event.load id)).sum = (es.map (Event.load id)).sum := by
  induction es with
  | nil => rfl
  | cons e es ih =>
    have ih := ih fun stream bytes hm => h stream bytes (List.mem_cons_of_mem _ hm)
    by_cases hs : seen e = true
    · simp [hs, ih]
    · have hz : e.load id = 0 := by
        cases e with
        | data stream bytes =>
          refine if_neg fun hi => hs (h stream bytes List.mem_cons_self hi)
        | _ => rfl
      simp [hs, ih, hz]

theorem Session.tick_buffered (s : Session) (now : Instant) (id : UInt32) :
    (s.tick now).buffered id = s.buffered id := by
  have hz : ∀ expired : List Token, ((expired.map fun token =>
      Event.pingFinished s.handle.id token (.error ⟨.local_, .deadlineExceeded⟩)).map
      (Event.load id)).sum = 0 := by
    intro expired
    induction expired with
    | nil => rfl
    | cons token expired ih => simpa [Event.load] using ih
  rw [buffered_eq, buffered_eq, tick, List.map_append, List.sum_append, hz, Nat.add_zero]

theorem Party.buffered_le {p : Party} (h : p.session.events.Sublist p.log) (id : UInt32) :
    p.session.buffered id ≤ (received id p.log).length := by
  rw [received_length, Session.buffered_eq]
  exact List.Sublist.sum_le_sum (h.map _) fun _ _ => Nat.zero_le _

theorem Party.data_handle {p : Party} (h : p.session.events.Sublist p.log)
    (hh : p.endpoint.Healthy) {id : UInt32} {st : StreamState}
    (hst : p.session.streams[id]? = some st) {stream : StreamHandle} {bytes : List UInt8}
    (hm : .data stream bytes ∈ p.session.events) (hi : stream.wireId = id) : stream = st.handle := by
  have hlive := hh.lives id
  have hstream : p.endpoint.streams id = some st := hst
  rw [Endpoint.Lives, hstream, endpoint_log] at hlive
  obtain ⟨context, protocol, data, hdata, htrace⟩ := hlive
  have hin : .data stream bytes ∈ trace id p.log :=
    List.mem_filter.mpr ⟨h.subset hm, by simp [onStream, Event.stream?, hi]⟩
  rw [htrace] at hin
  rcases List.mem_cons.mp hin with he | hin
  · cases he
  · rcases List.mem_append.mp hin with hin | hin
    · obtain ⟨bytes', he⟩ := hdata _ hin
      exact (Event.data.inj he).1
    · split at hin
      · cases hin
      · cases List.mem_singleton.mp hin

/-- The pings that a frame at this time finds expired. -/
def Session.expired (s : Session) (now : Instant) : Nat :=
  (s.pings.toList.filter fun e => e.2.2 ≤ now).length

theorem Session.tick_length (s : Session) (now : Instant) :
    (s.tick now).events.length = s.events.length + s.expired now := by
  simp [tick, expired]

/-- A consumer that does not read its events influences no frame the session reads:
the session closes, and other streams end, exactly when they would if it had read
everything, provided its events alone do not fill the queue. -/
theorem slow_consumer_isolation {role : ConnectionRole} {s : Session} {clock : Instant}
    {p : Party} (hs : s.Fresh role) (hp : ReflTransGen Party.Step (Party.start s clock) p)
    (owner : StreamOwner) (f : VerifiedFrame) (registry : Registry) (now : Instant)
    (hquota : ∀ st, f.wire.header.frameType = .data →
      p.session.streams[f.wire.header.streamId]? = some st →
      (st.handle.authorize p.session.handle.id owner).isOk = true →
      (received f.wire.header.streamId p.log).length + f.wire.payload.length ≤
        p.session.resources.limits.bufferedBytesPerStream)
    (hroom : p.session.eventLimit ≤ p.session.events.length + p.session.expired now →
      p.session.eventLimit ≤
        (p.session.without owner).events.length + p.session.expired now) :
    (p.session.receive f registry now).1 =
        ((p.session.without owner).receive f registry now).1 ∧
      (p.session.receive f registry now).2.without owner =
        ((p.session.without owner).receive f registry now).2.without owner := by
  have hsub : p.session.events.Sublist p.log :=
    Party.steps_unread hs.sound.1 (List.Sublist.refl s.events) hp
  obtain ⟨-, hh, -⟩ :=
    Party.steps_healthy (p := Party.start s clock) hs.sound.1 (hs.healthy clock) hp
  have hle : (p.session.without owner).events.length ≤ p.session.events.length :=
    List.length_filter_le ..
  have hcrowded : p.session.eventLimit ≤ (p.session.tick now).events.length ↔
      p.session.eventLimit ≤ ((p.session.without owner).tick now).events.length := by
    rw [Session.tick_length, Session.tick_length]
    exact ⟨hroom, fun h => h.trans (Nat.add_le_add_right hle _)⟩
  have hbuffered : ∀ id, (p.session.without owner).buffered id ≤ p.session.buffered id := by
    intro id
    rw [Session.buffered_eq, Session.buffered_eq]
    exact List.Sublist.sum_le_sum (List.filter_sublist.map _) fun _ _ => Nat.zero_le _
  obtain ⟨hr, es, heq, hes⟩ := Session.receive_agree (p.session.twin_without owner) f registry now
    hcrowded fun hk hc => by
      rw [Session.tick_buffered, Session.tick_buffered]
      obtain ⟨st, hst⟩ := Option.isSome_iff_exists.mp
        (Std.TreeMap.isSome_getElem?_eq_contains.trans hc)
      by_cases hown : (st.handle.authorize p.session.handle.id owner).isOk = true
      · have hq := hquota st hk hst hown
        have hb := Party.buffered_le hsub f.wire.header.streamId
        have hb' := hbuffered f.wire.header.streamId
        omega
      · have hsame : (p.session.without owner).buffered f.wire.header.streamId =
            p.session.buffered f.wire.header.streamId := by
          rw [Session.buffered_eq, Session.buffered_eq]
          refine sum_load_filter fun stream bytes hm hi => ?_
          rw [Party.data_handle hsub hh hst hm hi]
          simpa [Session.delivers, Event.stream?] using hown
        rw [hsame]
  refine ⟨hr, ?_⟩
  have hseen : (fun e => !(p.session.receive f registry now).2.delivers owner e) =
      fun e => !p.session.delivers owner e := by
    funext e
    rw [Session.delivers, Session.delivers,
      (Session.receive_carries p.session f registry now).handle]
  rw [heq]
  simp only [Session.without, Session.delivers] at hes hseen ⊢
  rw [hseen, hes]

def Registry.pair : Registry := ⟨[(⟨"chat", 1⟩, ⟨0⟩), (⟨"file", 1⟩, ⟨1⟩)]⟩

def Party.idle : Party :=
  let identity : IdentityId := ⟨Vector.replicate 32 0⟩
  Party.start ((Session.withHandle ⟨⟨0⟩⟩ .acceptor identity identity).setResources
    { limits := ⟨1, 2, maxFrameBytes, maxPayloadBytes⟩ }) 0

def Party.hear (p : Party) (kind : FrameType) (id : UInt32) (payload : List UInt8) : Party :=
  match frame kind id payload with
  | .error _ => p
  | .ok f => (p.run (.receive ⟨f⟩ .pair 0)).run (.popStreamEvent ⟨1⟩)

def Party.busy : Party :=
  let select := fun name => ((Open.new name 1).toOption.map Open.encode).getD []
  (Party.idle.hear .open_ 1 (select "chat")).hear .open_ 3 (select "file")

def Party.flooded : Nat → Party
  | 0 => Party.busy
  | n + 1 => (Party.flooded n).hear .data 1 [0]

theorem Party.hear_steps (p : Party) (kind : FrameType) (id : UInt32) (payload : List UInt8) :
    ReflTransGen Party.Step p (p.hear kind id payload) := by
  unfold hear
  split
  case h_1 => exact .refl
  case h_2 f _ =>
    exact .tail (.single ⟨.receive ⟨f⟩ .pair 0, trivial, rfl⟩) ⟨.popStreamEvent ⟨1⟩, trivial, rfl⟩

theorem Party.busy_reached : ReflTransGen Party.Step Party.idle Party.busy := by
  unfold busy
  exact (hear_steps _ _ _ _).trans (hear_steps _ _ _ _)

theorem slow_consumer_isolation_busy : ∃ f, frame .data 3 [1] = .ok f ∧
    (Party.busy.session.receive ⟨f⟩ .pair 0).1 =
      ((Party.busy.session.without ⟨0⟩).receive ⟨f⟩ .pair 0).1 := by
  obtain ⟨f, hf, ht, hi, hp⟩ := frame_eq .data 3 (show [(1 : UInt8)].length ≤ _ by decide) rfl
  refine ⟨f, hf, ?_⟩
  have hlimit : (received 3 Party.busy.log).length + 1 ≤
      Party.busy.session.resources.limits.bufferedBytesPerStream := by decide +kernel
  have hroom : ¬ Party.busy.session.eventLimit ≤
      Party.busy.session.events.length + Party.busy.session.expired 0 := by decide +kernel
  refine (slow_consumer_isolation ⟨_, _, _, _, rfl⟩ Party.busy_reached ⟨0⟩ ⟨f⟩ .pair 0
    (fun st _ _ _ => ?_) fun h => absurd h hroom).1
  simp only [hi, hp]
  exact hlimit

theorem Session.receive_data {s : Session} {f : VerifiedFrame} (st : StreamState)
    (registry : Registry) (now : Instant) (ht : f.wire.header.frameType = .data)
    (hopen : s.closed = false) (hp : s.pings.toList = []) (hroom : s.events.length < s.eventLimit)
    (hid : s.ids.wasCreated f.wire.header.streamId = true)
    (hst : s.streams[f.wire.header.streamId]? = some st) (hr : st.remoteOpen = true)
    (hne : f.wire.payload ≠ []) (hlen : f.wire.payload.length ≤ maxPayloadBytes)
    (hb : s.buffered f.wire.header.streamId + f.wire.payload.length ≤
      s.resources.limits.bufferedBytesPerStream) :
    s.receive f registry now =
      (.ok (), { s with now := some now, events := s.events ++ [.data st.handle f.wire.payload] }) := by
  have htick : s.tick now = { s with now := some now } := by
    simp [tick, hp]
  have hc : s.streams.contains f.wire.header.streamId = true := by
    rw [← Std.TreeMap.isSome_getElem?_eq_contains, hst]
    rfl
  have hparts : ({ s with now := some now } : Session).receiveParts f.wire.header.frameType
      f.wire.header.streamId f.wire.payload registry =
      (.ok (), { s with now := some now, events := s.events ++ [.data st.handle f.wire.payload] }) := by
    have hb' : ¬ ({ s with now := some now } : Session).buffered f.wire.header.streamId +
        f.wire.payload.length > s.resources.limits.bufferedBytesPerStream := Nat.not_lt.mpr hb
    simp [receiveParts, receiveData, ht, hid, hc, hst, hr, hne, Nat.not_lt.mpr hlen, hb']
  have hroom' : ¬ ({ s with now := some now } : Session).events.length ≥
      ({ s with now := some now } : Session).eventLimit := Nat.not_le.mpr hroom
  rw [receive, if_neg (by simp [hopen]), htick]
  simp only
  rw [if_neg hroom', hparts]

theorem Party.flooded_reached (n : Nat) : ReflTransGen Party.Step Party.idle (Party.flooded n) := by
  induction n with
  | zero => exact busy_reached
  | succ n ih => exact ih.trans (hear_steps _ _ _ _)

theorem chat_id_ne_zero : (1 : UInt32) ≠ 0 := by decide

def StreamHandle.chat : StreamHandle := ⟨⟨0⟩, ⟨0⟩, 1, chat_id_ne_zero⟩

theorem Party.busy_session : Party.busy.session.closed = false ∧
    Party.busy.session.pings.toList = [] ∧ Party.busy.session.now = some 0 ∧
    Party.busy.session.ids.wasCreated 1 = true ∧
    Party.busy.session.streams[(1 : UInt32)]? = some ⟨.chat, true, true, false⟩ ∧
    Party.busy.session.events.length = 2 ∧ Party.busy.session.eventLimit = 138 ∧
    Party.busy.session.events.all (fun e => !Party.busy.session.delivers ⟨1⟩ e) = true ∧
    Party.busy.session.buffered 1 = 0 ∧
    ¬ Party.busy.session.delivers ⟨1⟩ (.data .chat [0]) = true := by
  decide +kernel

theorem sum_load_replicate (n : Nat) :
    ((List.replicate n (Event.data .chat [0])).map (Event.load 1)).sum = n := by
  simp [Event.load, StreamHandle.chat]

theorem Party.flooded_session {n : Nat} (hn : n ≤ 136) :
    (Party.flooded n).session = { Party.busy.session with
      events := Party.busy.session.events ++ List.replicate n (.data .chat [0]) } := by
  obtain ⟨hopen, hpings, hnow, hid, hst, hlen, hlimit, hnone, hb, hchat⟩ := busy_session
  induction n with
  | zero => simp [flooded]
  | succ n ih =>
    obtain ⟨f, hf, ht, hi, hp⟩ := frame_eq .data 1 (show [(0 : UInt8)].length ≤ _ by decide) rfl
    have ih := ih (by omega)
    have hroom : (flooded n).session.events.length < (flooded n).session.eventLimit := by
      rw [ih, List.length_append, List.length_replicate, hlen]
      show 2 + n < Party.busy.session.eventLimit
      omega
    have hbuf : (flooded n).session.buffered 1 + 1 ≤
        (flooded n).session.resources.limits.bufferedBytesPerStream := by
      rw [Session.buffered_eq] at hb ⊢
      rw [ih, List.map_append, List.sum_append, hb, sum_load_replicate]
      show 0 + n + 1 ≤ maxPayloadBytes
      rw [maxPayloadBytes]
      omega
    have hrec := Session.receive_data (s := (flooded n).session) (f := ⟨f⟩)
      ⟨.chat, true, true, false⟩ .pair 0 ht (by rw [ih]; exact hopen)
      (by rw [ih]; exact hpings) hroom (by rw [ih, hi]; exact hid) (by rw [ih, hi]; exact hst) rfl
      (by simp [hp]) (by simp [hp, maxPayloadBytes]) (by rw [hi, hp]; exact hbuf)
    have hhear : (flooded (n + 1)).session =
        (((flooded n).session.receive ⟨f⟩ .pair 0).2.popStreamEvent ⟨1⟩).2 := by
      simp only [flooded, hear, hf, run, after]
    rw [hhear, hrec, Session.popStreamEvent_eq, ih, hp]
    simp only [List.append_assoc, ← List.replicate_succ']
    rw [List.eraseP_of_forall_not, ← hnow]
    intro e he
    rcases List.mem_append.mp he with he | he
    · have hd := List.all_eq_true.mp hnone e he
      exact fun h => by simp [show Party.busy.session.delivers ⟨1⟩ e = true from h] at hd
    · rw [(List.mem_replicate.mp he).2]
      exact hchat

/-- The 136 bytes of owner 0 close the session and end the stream of owner 1, which had
read everything; had owner 0 read its events the frame would have been delivered. -/
theorem slow_consumer_ends_other_streams :
    (TransportConfig.new Party.idle.session.resources.limits 1).isOk = true ∧
    ReflTransGen Party.Step Party.idle (Party.flooded 136) ∧
    (Party.flooded 136).session.closed = false ∧
    (Party.flooded 136).session.buffered 1 = 136 ∧
    ∃ f, frame .data 3 [1] = .ok f ∧
      ((Party.flooded 136).session.receive ⟨f⟩ .pair 0).1 = .error .capacity ∧
      ((Party.flooded 136).session.receive ⟨f⟩ .pair 0).2.closed = true ∧
      .streamClosed ⟨⟨0⟩, ⟨1⟩, 3, by decide⟩ (.failed ⟨.local_, .resourceLimit⟩) ∈
        ((Party.flooded 136).session.receive ⟨f⟩ .pair 0).2.events ∧
      (((Party.flooded 136).session.without ⟨0⟩).receive ⟨f⟩ .pair 0).1 = .ok () := by
  obtain ⟨hopen, hpings, hnow, hid, hst, hlen, hlimit, hnone, hb, -⟩ := Party.busy_session
  have hs := Party.flooded_session (n := 136) le_rfl
  have hfull : (Party.flooded 136).session.eventLimit ≤ (Party.flooded 136).session.events.length := by
    rw [hs, List.length_append, List.length_replicate, hlen]
    exact hlimit.le
  have hopen' : (Party.flooded 136).session.closed = false := by rw [hs]; exact hopen
  obtain ⟨f, hf, -⟩ := frame_eq .data 3 (show [(1 : UInt8)].length ≤ _ by decide) rfl
  refine ⟨by decide, Party.flooded_reached 136, hopen', ?_, f, hf, ?_⟩ <;>
    generalize (Party.flooded 136).session = s at hs hfull hopen' ⊢
  · rw [Session.buffered_eq] at hb ⊢
    rw [hs, List.map_append, List.sum_append, hb, sum_load_replicate]
  · rw [Session.receive_crowded hopen' (hfull.trans (by simp [Session.tick]))]
    refine ⟨rfl, (Session.close_keeps _ _ _).1, ?_, ?_⟩
    · have hfile : .streamClosed ⟨⟨0⟩, ⟨1⟩, 3, by decide⟩ (.failed ⟨.local_, .resourceLimit⟩) ∈
          Party.busy.session.closingEvents (some ⟨.local_, .resourceLimit⟩) := by decide +kernel
      have hclosing : (s.tick 0).closingEvents (some ⟨.local_, .resourceLimit⟩) =
          Party.busy.session.closingEvents (some ⟨.local_, .resourceLimit⟩) := by
        rw [hs]
        simp [Session.closingEvents, Session.tick, hpings]
      rw [Session.close, if_neg (by simp [Session.tick, hopen'])]
      exact List.mem_append_right _ (hclosing ▸ hfile)
    · have hsame : s.without ⟨0⟩ = Party.busy.session.without ⟨0⟩ := by
        have hgone : (List.replicate 136 (Event.data .chat [0])).filter
            (fun e => !Party.busy.session.delivers ⟨0⟩ e) = [] := by
          refine List.filter_eq_nil_iff.mpr fun e he => ?_
          rw [(List.mem_replicate.mp he).2]
          decide +kernel
        have hfilter := List.filter_append (p := fun e => !Party.busy.session.delivers ⟨0⟩ e)
          Party.busy.session.events (List.replicate 136 (Event.data .chat [0]))
        rw [hgone, List.append_nil] at hfilter
        rw [hs]
        exact congrArg (fun events => { Party.busy.session with events }) hfilter
      have hready : ∀ f ∈ (frame .data 3 [1]).toOption,
          ((Party.busy.session.without ⟨0⟩).receive ⟨f⟩ .pair 0).1 = .ok () := by decide +kernel
      rw [hsame]
      exact hready f (by rw [hf]; rfl)

end TalkSphere
