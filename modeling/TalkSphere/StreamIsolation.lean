import TalkSphere.SessionEmits

/-! Streams do not disturb each other: what a frame or a call does to one of them is not
seen by the rest. -/

namespace TalkSphere

open Relation (ReflTransGen)

namespace Party

variable {p : Party}

theorem trace_emits {s s' : Session} {id j : UInt32} (hj : j ≠ id)
    (h : Session.Emits (fun e => onStream id e = true ∨ e.stream? = none) s s') :
    trace j s'.events = trace j s.events := by
  obtain ⟨more, he, hp⟩ := h
  have hnone : trace j more = [] := by
    rw [trace, List.filter_eq_nil_iff]
    intro e hm hon
    rcases hp e hm with hid | hs
    · simp only [onStream, Option.any_eq_true, beq_iff_eq] at hid hon
      obtain ⟨stream, hst, hid⟩ := hid
      obtain ⟨stream', hst', hon⟩ := hon
      obtain rfl := Option.some.inj (hst.symm.trans hst')
      exact hj (hon.symm.trans hid)
    · simp [onStream, hs] at hon
  rw [he, trace_append, hnone, List.append_nil]

theorem run_beside (hs : p.session.Sound) {c : Call} {id : UInt32} (hc : c.stream? = some id)
    (h0 : id ≠ 0) (hopen : (p.run c).session.closed = false) :
    Session.Beside id (fun e => onStream id e = true ∨ e.stream? = none) p.session
      (p.run c).session := by
  have own : ∀ {s : Session}, Session.Beside id (Event.Notice id) p.session s →
      Session.Beside id (fun e => onStream id e = true ∨ e.stream? = none) p.session s :=
    fun h => h.mono fun e he => .inl he.1
  have hturn := run_turn hs.ids c
  generalize (p.run c).session = s at hturn hopen ⊢
  cases hturn with
  | worked works =>
    exact own ((works.mono (fun j h => h id hc) le_rfl).beside hs)
  | overfull | closed =>
    exact absurd ((Session.close_keeps _ _ _).1.symm.trans hopen) (by rintro ⟨⟩)
  | received f registry now =>
    obtain rfl := Option.some.inj hc
    have htick : Session.Beside f.wire.header.streamId
        (fun e => onStream f.wire.header.streamId e = true ∨ e.stream? = none) p.session
        (p.session.tick now) := by
      refine ⟨fun _ _ => rfl, fun _ _ => rfl, _, rfl, fun e he => .inr ?_⟩
      obtain ⟨token, -, rfl⟩ := List.mem_map.mp he
      rfl
    have hsound : (p.session.tick now).Sound := (run_local hs (c := .tick now) rfl).1
    have hd := p.session.receive_dispatched f registry now
    generalize p.session.receive f registry now = out at hd hopen ⊢
    cases hd with
    | late ceased => exact absurd (ceased.symm.trans hopen) (by rintro ⟨⟩)
    | crowded => exact absurd ((Session.close_keeps _ _ _).1.symm.trans hopen) (by rintro ⟨⟩)
    | failed => exact absurd ((Session.close_keeps _ _ _).1.symm.trans hopen) (by rintro ⟨⟩)
    | served live room parts =>
      have hparted := Session.receiveParts_parted (s := p.session.tick now) live
        f.wire.header.frameType f.wire.header.streamId f.wire.payload registry
      rw [parts] at hparted
      refine htick.trans ?_
      cases hparted with
      | worked works =>
        exact ((works.mono (fun j h => h h0) le_rfl).beside hsound).mono fun e he => .inl he.1
      | @data state found room =>
        have hon : onStream f.wire.header.streamId (.data state.handle f.wire.payload) = true := by
          simp [onStream, Event.stream?, hsound.keyed _ state found]
        exact ⟨fun _ _ => rfl, fun _ _ => rfl, .one rfl (.inl hon)⟩
      | answered => exact ⟨fun _ _ => rfl, fun _ _ => rfl, .one rfl (.inr rfl)⟩
      | fatal => exact absurd ((Session.close_keeps _ _ _).1.symm.trans hopen) (by rintro ⟨⟩)
  | read reads => cases c <;> cases reads <;> cases hc
  | _ => cases hc

/-- A frame or a call that concerns one stream and leaves the session open changes nothing
of another: its entry, its queued frames and its unread events are the same, and so are the
queued frames that control the connection. -/
theorem stream_isolation {role : ConnectionRole} {s : Session} {clock : Instant} {c : Call}
    {i : UInt32} (hs : s.Fresh role) (hp : ReflTransGen Party.Step (Party.start s clock) p)
    (hc : c.stream? = some i) (hi : i ≠ 0) (hopen : (p.run c).session.closed = false) :
    (∀ j ≠ i, (p.run c).session.streams[j]? = p.session.streams[j]? ∧
      framesOf j (p.run c).session.outbound = framesOf j p.session.outbound ∧
      trace j (p.run c).session.events = trace j p.session.events) ∧
    framesOf 0 (p.run c).session.outbound = framesOf 0 p.session.outbound := by
  have hsound := (steps_healthy (p := Party.start s clock) hs.sound.1 (hs.healthy clock) hp).1
  have hb := run_beside hsound hc hi hopen
  exact ⟨fun j hj => ⟨hb.streams j hj, hb.frames j hj, trace_emits hj hb.events⟩,
    hb.frames 0 hi.symm⟩

/-- Owner 0 sends on stream 1 while stream 3 is open. -/
theorem stream_isolation_busy : (busy.run (.send ⟨0⟩ .chat [0])).session.outbound.length = 1 ∧
    (busy.run (.send ⟨0⟩ .chat [0])).session.streams[(3 : UInt32)]? =
      busy.session.streams[(3 : UInt32)]? := by
  have hone : (busy.run (.send ⟨0⟩ .chat [0])).session.outbound.length = 1 := by decide +kernel
  have hopen : (busy.run (.send ⟨0⟩ .chat [0])).session.closed = false := by decide +kernel
  exact ⟨hone, ((stream_isolation ⟨_, _, _, _, rfl⟩ busy_reached (i := 1) rfl (by decide) hopen).1 3
    (by decide)).1⟩

end Party

end TalkSphere
