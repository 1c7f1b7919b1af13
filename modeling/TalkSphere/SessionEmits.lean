import TalkSphere.SessionActs
import TalkSphere.SlowConsumer

/-! What the changes of a session edit. All streams share the table, the output queue and
the event queue; a change on one of them edits each of the three in the places that belong to
it, and events are only ever added. -/

namespace TalkSphere

open Std (TreeMap)

/-- The queued frames of one stream, in order; id 0 has those that control the connection. -/
def framesOf (id : UInt32) (queue : List WireFrame) : List WireFrame :=
  queue.filter (·.header.streamId == id)

theorem framesOf_append (id : UInt32) (queue queue' : List WireFrame) :
    framesOf id (queue ++ queue') = framesOf id queue ++ framesOf id queue' :=
  List.filter_append ..

theorem framesOf_other {id j : UInt32} {f : WireFrame} (hf : f.header.streamId = id)
    (hj : j ≠ id) : framesOf j [f] = [] := by
  simp [framesOf, hf, Ne.symm hj]

theorem framesOf_retained {id j : UInt32} (hj : j ≠ id) (queue : List WireFrame) :
    framesOf j (queue.filter (Session.retained id)) = framesOf j queue := by
  rw [framesOf, List.filter_filter]
  refine List.filter_congr fun f _ => ?_
  by_cases hf : f.header.streamId = j
  · simp [Session.retained, hf, hj]
  · simp [hf]

def Event.Notice (id : UInt32) (e : Event) : Prop := onStream id e = true ∧ ∀ j, e.load j = 0

theorem Event.Notice.of_stream {id : UInt32} {e : Event} {stream : StreamHandle}
    (hs : e.stream? = some stream) (hid : stream.wireId = id) (hl : ∀ j, e.load j = 0) :
    e.Notice id := ⟨by simp [onStream, hs, hid], hl⟩

def Event.Plain (e : Event) : Prop := e.stream?.isSome = true ∧ ∀ j, e.load j = 0

theorem Event.Notice.plain {id : UInt32} {e : Event} (h : e.Notice id) : e.Plain := by
  obtain ⟨hon, hl⟩ := h
  simp only [onStream, Option.any_eq_true] at hon
  obtain ⟨stream, hs, -⟩ := hon
  exact ⟨by rw [hs]; rfl, hl⟩

namespace Session

variable {s s' s'' : Session} {P Q : Event → Prop}

def Emits (P : Event → Prop) (s s' : Session) : Prop :=
  ∃ more, s'.events = s.events ++ more ∧ ∀ e ∈ more, P e

theorem Emits.nothing (h : s'.events = s.events) : Emits P s s' :=
  ⟨[], by rw [h, List.append_nil], nofun⟩

theorem Emits.one {e : Event} (h : s'.events = s.events ++ [e]) (he : P e) : Emits P s s' :=
  ⟨[e], h, fun _ hm => List.mem_singleton.mp hm ▸ he⟩

theorem Emits.trans (h : Emits P s s') (h' : Emits P s' s'') : Emits P s s'' := by
  obtain ⟨more, he, hp⟩ := h
  obtain ⟨more', he', hp'⟩ := h'
  refine ⟨more ++ more', by rw [he', he, List.append_assoc], ?_⟩
  simpa only [List.mem_append, or_imp, forall_and] using ⟨hp, hp'⟩

theorem Emits.mono (h : Emits P s s') (hpq : ∀ e, P e → Q e) : Emits Q s s' := by
  obtain ⟨more, he, hp⟩ := h
  exact ⟨more, he, fun e hm => hpq e (hp e hm)⟩

/-- A step on stream `id`: the table and the output of the others are as before, and `P`
holds of the events it adds. -/
structure Beside (id : UInt32) (P : Event → Prop) (s s' : Session) : Prop where
  streams : ∀ j ≠ id, s'.streams[j]? = s.streams[j]?
  frames : ∀ j ≠ id, framesOf j s'.outbound = framesOf j s.outbound
  events : Emits P s s'

variable {id : UInt32}

theorem Beside.same (streams : s'.streams = s.streams) (outbound : s'.outbound = s.outbound)
    (events : s'.events = s.events) : Beside id P s s' :=
  ⟨fun _ _ => by rw [streams], fun _ _ => by rw [outbound], .nothing events⟩

theorem Beside.refl (s : Session) : Beside id P s s := .same rfl rfl rfl

theorem Beside.trans (h : Beside id P s s') (h' : Beside id P s' s'') : Beside id P s s'' :=
  ⟨fun j hj => (h'.streams j hj).trans (h.streams j hj),
    fun j hj => (h'.frames j hj).trans (h.frames j hj), h.events.trans h'.events⟩

theorem Beside.mono (h : Beside id P s s') (hpq : ∀ e, P e → Q e) : Beside id Q s s' :=
  ⟨h.streams, h.frames, h.events.mono hpq⟩

theorem getElem?_erase_other {j : UInt32} (streams : TreeMap UInt32 StreamState) (hj : j ≠ id) :
    (streams.erase id)[j]? = streams[j]? := by
  rw [TreeMap.getElem?_erase, if_neg (by simpa using Ne.symm hj)]

theorem getElem?_insert_other {j : UInt32} (streams : TreeMap UInt32 StreamState)
    (state : StreamState) (hj : j ≠ id) : (streams.insert id state)[j]? = streams[j]? := by
  rw [TreeMap.getElem?_insert, if_neg (by simpa using Ne.symm hj)]

theorem framesOf_pushed {j : UInt32} (s : Session) {f : WireFrame} (lease : Reservation)
    (resources : Resources) (hj : j ≠ f.header.streamId) :
    framesOf j (s.pushed f lease resources).outbound = framesOf j s.outbound := by
  have hother : framesOf j [{ f with reservation := some lease }] = [] :=
    framesOf_other rfl hj
  rw [pushed, framesOf_append, hother, List.append_nil]

theorem Work.beside {n : Nat} (work : Work id n s s') (hs : s.Sound) :
    Beside id (Event.Notice id) s s' := by
  cases work with
  | tuned | accepted => exact .same rfl rfl rfl
  | pushed kind room =>
    exact ⟨fun _ _ => rfl, fun j hj => framesOf_pushed s _ _ hj, .nothing rfl⟩
  | purged id => exact ⟨fun _ _ => rfl, fun j hj => framesOf_retained hj _, .nothing rfl⟩
  | dropped outcome found =>
    exact ⟨fun j hj => getElem?_erase_other _ hj, fun _ _ => rfl,
      .one rfl (.of_stream rfl (hs.keyed id _ found) fun _ => rfl)⟩
  | marked => exact ⟨fun j hj => getElem?_insert_other _ _ hj, fun _ _ => rfl, .nothing rfl⟩
  | @ended _ _ state found =>
    exact ⟨fun j hj => getElem?_insert_other _ _ hj, fun _ _ => rfl,
      .one rfl (.of_stream rfl (hs.keyed id state found) fun _ => rfl)⟩
  | added =>
    exact ⟨fun j hj => getElem?_insert_other _ _ hj, fun _ _ => rfl,
      .one rfl (.of_stream rfl rfl fun _ => rfl)⟩
  | opened owner protocol live nonzero slots valid allocated fits =>
    exact ⟨fun j hj => getElem?_insert_other _ _ hj,
      fun j hj => framesOf_pushed _ _ _ (fits.own.symm ▸ hj),
      .one rfl (.of_stream rfl rfl fun _ => rfl)⟩

theorem Works.beside {n : Nat} (works : Works (· = id) n s s') (hs : s.Sound) :
    Beside id (Event.Notice id) s s' :=
  (works.lift .refl .trans (fun mine work hs => ⟨work.sound hs, mine ▸ work.beside hs⟩) hs).2

theorem Works.emits {I : UInt32 → Prop} {n : Nat} (works : Works I n s s') (hs : s.Sound) :
    Emits Event.Plain s s' :=
  (works.lift (fun _ => .nothing rfl) .trans (fun _ work hs =>
    ⟨work.sound hs, (work.beside hs).events.mono fun _ he => he.plain⟩) hs).2

theorem sent_emits (hs : s.Sound) (kind : FrameType) (id : UInt32) :
    Emits Event.Plain s (s.sent kind id) :=
  (s.sent_works kind (I := (· = id)) rfl).emits
    ⟨hs.keyed, hs.closed_streams, hs.closed_pings, hs.ids⟩

end Session

end TalkSphere
