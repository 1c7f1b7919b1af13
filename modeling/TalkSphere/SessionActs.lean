import TalkSphere.Party

/-! What the changes of a session do to its output, in elementary acts, and how much a
call can add to the events that wait; budgets, orders and bounds follow from the acts. -/

namespace TalkSphere

open Std (TreeMap)
open Relation (ReflTransGen)

/-- The output side of a session: the queue, the shared budget it is charged to,
the rotation pointer, the last id allocated here and whether the session is closed. -/
structure Output where
  queue : List WireFrame
  resources : Resources
  last : Option UInt32
  greatest : UInt32
  closed : Bool

def WireFrame.leased (f : WireFrame) (lease : Reservation) : WireFrame :=
  { f with reservation := some lease }

inductive Edit
  | push (f : WireFrame)
  | purge (id : UInt32)
  | clear

namespace Output

inductive Act : Output → Edit → Output → Prop
  | push {o : Output} {f : WireFrame} {lease : Reservation} {resources : Resources}
      (hkind : f.header.frameType ≠ .open_)
      (hroom : o.resources.outbound (f.payload.length + queuedOverhead) = some (lease, resources)) :
      Act o (.push (f.leased lease)) { o with queue := o.queue ++ [f.leased lease], resources }
  | opens {o : Output} {f : WireFrame} {lease : Reservation} {resources : Resources}
      (hkind : f.header.frameType = .open_) (hfresh : o.greatest < f.header.streamId)
      (hroom : o.resources.outbound (f.payload.length + queuedOverhead) = some (lease, resources)) :
      Act o (.push (f.leased lease)) { o with
        queue := o.queue ++ [f.leased lease], resources, greatest := f.header.streamId }
  | purge {o : Output} (id : UInt32) :
      Act o (.purge id) { o with
        queue := o.queue.filter (Session.retained id)
        resources := Session.releaseAll o.resources
          (o.queue.filter fun f => !Session.retained id f) }
  | shut {o : Output} :
      Act o .clear { o with
        queue := [], resources := Session.releaseAll o.resources o.queue, closed := true }

inductive Acts : Output → List Edit → Output → Prop
  | refl {o : Output} : Acts o [] o
  | tail {o o' o'' : Output} {edits : List Edit} {e : Edit} (h : Acts o edits o')
      (ha : Act o' e o'') : Acts o (edits ++ [e]) o''

theorem Acts.single {o o' : Output} {e : Edit} (h : Act o e o') : Acts o [e] o' :=
  .tail .refl h

theorem Acts.trans {o o' o'' : Output} {edits edits' : List Edit} (h : Acts o edits o')
    (h' : Acts o' edits' o'') : Acts o (edits ++ edits') o'' := by
  induction h' with
  | refl => rwa [List.append_nil]
  | tail _ ha ih => exact List.append_assoc .. ▸ ih.tail ha

end Output

namespace Session

variable {s s' s'' : Session} {m n : Nat} {id : UInt32}

def output (s : Session) : Output :=
  ⟨s.outbound, s.resources, s.lastOutput, s.ids.greatestLocal, s.closed⟩

/-- Events that wait, and those that streams, pings and the closure may still add
without any further input. -/
def load (s : Session) : Nat :=
  s.events.length + s.streams.size + s.pings.size + if s.closed then 0 else 1

structure Effect (n : Nat) (s s' : Session) : Prop where
  acts : ∃ edits, Output.Acts s.output edits s'.output
  load : s'.load ≤ s.load + n
  streams : s'.streams.size ≤ max s.streams.size s.resources.limits.streamsPerConnection
  pings : s'.pings.size ≤ max s.pings.size 64
  limits : s'.resources.limits = s.resources.limits

theorem Effect.refl (s : Session) : Effect 0 s s :=
  ⟨⟨[], .refl⟩, le_rfl, le_max_left .., le_max_left .., rfl⟩

theorem Effect.trans (h : Effect n s s') (h' : Effect m s' s'') : Effect (n + m) s s'' where
  acts := by
    obtain ⟨edits, ha⟩ := h.acts
    obtain ⟨edits', ha'⟩ := h'.acts
    exact ⟨_, ha.trans ha'⟩
  load := by have := h.load; have := h'.load; omega
  streams := by have := h.streams; have := h'.streams; rw [h.limits] at this; omega
  pings := by have := h.pings; have := h'.pings; omega
  limits := h'.limits.trans h.limits

theorem Effect.mono (h : Effect m s s') (hn : m ≤ n) : Effect n s s' :=
  ⟨h.acts, h.load.trans (by omega), h.streams, h.pings, h.limits⟩

theorem Effect.inside (ho : s'.output = s.output) (hl : s'.load ≤ s.load + n)
    (hs : s'.streams.size ≤ max s.streams.size s.resources.limits.streamsPerConnection)
    (hp : s'.pings.size ≤ max s.pings.size 64) : Effect n s s' where
  acts := ⟨[], ho ▸ .refl⟩
  load := hl
  streams := hs
  pings := hp
  limits := congrArg (fun o => o.resources.limits) ho

theorem load_erase {state : StreamState} (h : s.streams[id]? = some state)
    (e : Event) (resources : Resources) (outbound : List WireFrame) :
    ({ s with resources, outbound, streams := s.streams.erase id, events := s.events ++ [e] } : Session).load =
      s.load := by
  have hc : s.streams.contains id = true := by
    rw [TreeMap.contains_eq_isSome_getElem?, h]
    rfl
  have hpos := FiniteMap.size_pos hc
  simp only [load, List.length_append, List.length_singleton, TreeMap.size_erase, if_pos hc]
  omega

theorem size_insert_of_some {state : StreamState} (h : s.streams[id]? = some state)
    (new : StreamState) : (s.streams.insert id new).size = s.streams.size := by
  rw [TreeMap.size_insert, if_pos]
  rw [TreeMap.contains_eq_isSome_getElem?, h]
  rfl

theorem size_enrolled (s : Session) (stream : StreamHandle) (protocol : Protocol) :
    (s.enrolled stream protocol).streams.size ≤ s.streams.size + 1 ∧
      (s.enrolled stream protocol).load ≤ s.load + 2 := by
  have hsize : (s.enrolled stream protocol).streams.size ≤ s.streams.size + 1 :=
    TreeMap.size_insert_le
  have hevents : (s.enrolled stream protocol).events.length = s.events.length + 1 :=
    List.length_append ..
  have hclosed : (s.enrolled stream protocol).closed = s.closed := rfl
  have hpings : (s.enrolled stream protocol).pings = s.pings := rfl
  refine ⟨hsize, ?_⟩
  rw [load, load, hevents, hclosed, hpings]
  omega

theorem Work.effect (work : Work id n s s') : Effect n s s' := by
  cases work with
  | tuned => exact .inside rfl le_rfl (le_max_left ..) (le_max_left ..)
  | accepted accepted =>
    exact .inside (by rw [(StreamIds.accept_ok accepted).2]; rfl) le_rfl (le_max_left ..)
      (le_max_left ..)
  | pushed kind room =>
    exact ⟨⟨_, .single (.push kind room)⟩, le_rfl, le_max_left .., le_max_left ..,
      Resources.outbound_limits room⟩
  | purged id =>
    exact ⟨⟨_, .single (.purge id)⟩, le_rfl, le_max_left .., le_max_left ..,
      releaseAll_limits ..⟩
  | dropped outcome found =>
    exact .inside rfl (load_erase found _ _ _).le (TreeMap.size_erase_le.trans (le_max_left ..))
      (le_max_left ..)
  | marked new found same =>
    have hsize := size_insert_of_some found new
    refine .inside rfl ?_ (hsize.le.trans (le_max_left ..)) (le_max_left ..)
    simp only [load, hsize, Nat.add_zero, le_refl]
  | @ended _ _ state found =>
    have hsize := size_insert_of_some found { state with remoteOpen := false }
    refine .inside rfl ?_ (hsize.le.trans (le_max_left ..)) (le_max_left ..)
    simp only [load, hsize, List.length_append, List.length_singleton]
    omega
  | added owner protocol live nonzero slots =>
    obtain ⟨hsize, hload⟩ := size_enrolled s ⟨s.handle.id, owner, id, nonzero⟩ protocol
    exact .inside rfl hload (le_max_of_le_right (hsize.trans slots)) (le_max_left ..)
  | @opened _ _ ids _ f lease resources owner protocol live nonzero slots valid allocated fits =>
    obtain ⟨hsize, hload⟩ := size_enrolled { s with ids } ⟨s.handle.id, owner, id, nonzero⟩ protocol
    obtain ⟨hn, rfl⟩ := StreamIds.allocate_ok allocated
    obtain ⟨-, fresh, -⟩ := StreamIds.following_eq_some valid.local_parity (valid.next_local ▸ hn)
    obtain ⟨kind, rfl, -, room⟩ := fits
    exact ⟨⟨_, .single (.opens (o := s.output) kind fresh room)⟩, hload,
      le_max_of_le_right (hsize.trans slots), le_max_left .., Resources.outbound_limits room⟩

theorem Works.effect {I : UInt32 → Prop} (works : Works I n s s') : Effect n s s' := by
  induction works with
  | refl s n => exact (Effect.refl s).mono (Nat.zero_le n)
  | tail _ _ work ih => exact ih.trans work.effect

theorem load_close (hopen : s.closed = false) (failure : Option Failure) (resources : Resources)
    (outbound : List WireFrame) :
    ({ s with
      closed := true, resources, outbound, pings := ∅, streams := ∅
      events := s.events ++ s.closingEvents failure } : Session).load = s.load := by
  have hs : (∅ : TreeMap UInt32 StreamState).size = 0 := rfl
  have hp : (∅ : TreeMap Token (Instant × Instant)).size = 0 := rfl
  simp only [load, closingEvents, List.length_append, List.length_map, List.length_singleton,
    TreeMap.length_toList, hopen, hs, hp, if_true, Bool.false_eq_true, if_false]
  omega

theorem close_effect (s : Session) (failure : Option Failure) (response : Option ErrorCode) :
    Effect 0 s (s.close failure response) := by
  by_cases hc : s.closed = true
  · rw [close, if_pos hc]
    exact .refl s
  have hopen : s.closed = false := Bool.eq_false_iff.mpr hc
  have hshut : Effect 0 s (s.shut (failure.or s.drainFailure)) :=
    ⟨⟨_, .single .shut⟩, (load_close hopen _ _ _).le, Nat.zero_le _, Nat.zero_le _,
      releaseAll_limits ..⟩
  rcases close_eq hopen failure response with he | ⟨code, f, lease, resources, -, -, fits, he⟩ <;>
    rw [he]
  · exact hshut
  · exact hshut.trans (fits.works (I := (· = 0)) (by decide) rfl).effect

theorem tick_effect (s : Session) (now : Instant) : Effect 0 s (s.tick now) := by
  have hsub : ((s.pings.toList.filter fun e => e.2.2 ≤ now).map Prod.fst).Sublist s.pings.keys := by
    rw [← TreeMap.map_fst_toList_eq_keys]
    exact List.filter_sublist.map Prod.fst
  have hsize : (s.tick now).pings.size +
      ((s.pings.toList.filter fun e => e.2.2 ≤ now).map Prod.fst).length = s.pings.size :=
    FiniteMap.size_foldl_erase (TreeMap.nodup_keys.sublist hsub)
      fun k hk => TreeMap.mem_keys.mp (hsub.subset hk)
  have hevents : (s.tick now).events.length = s.events.length +
      ((s.pings.toList.filter fun e => e.2.2 ≤ now).map Prod.fst).length := by
    simp only [tick, List.length_append, List.length_map]
  have hclosed : (s.tick now).closed = s.closed := rfl
  have hstreams : (s.tick now).streams = s.streams := rfl
  refine .inside rfl ?_ (le_max_left ..) (le_max_of_le_left (by omega))
  rw [load, load, hevents, hclosed, hstreams]
  omega

theorem sent_effect (s : Session) (kind : FrameType) (id : UInt32) :
    Effect 0 s (s.sent kind id) := by
  have hset : Effect 0 s { s with
      goawayWritten := decide (kind = .goAway) || s.goawayWritten } :=
    .inside rfl le_rfl (le_max_left ..) (le_max_left ..)
  exact hset.trans (s.sent_works kind (I := (· = id)) rfl).effect

theorem pinged_effect {I : UInt32 → Prop} (works : Works I 0 s s') (few : s.pings.size < 64)
    (token : Token) (x : Instant × Instant) :
    Effect 1 s { s' with pings := s.pings.insert token x } := by
  have hgrow := TreeMap.size_insert_le (t := s'.pings) (k := token) (v := x)
  have hadd : Effect 1 s' { s' with pings := s'.pings.insert token x } := by
    rw [← works.keeps.pings] at few
    refine .inside rfl ?_ (le_max_left ..) (hgrow.trans (by omega))
    simp only [load]
    omega
  rw [← works.keeps.pings]
  exact works.effect.trans hadd

theorem receiveParts_effect (live : s.closed = false) (kind : FrameType) (id : UInt32)
    (payload : List UInt8) (registry : Registry) :
    Effect 2 s (s.receiveParts kind id payload registry).2 := by
  have hp := receiveParts_parted live kind id payload registry
  generalize s.receiveParts kind id payload registry = out at hp ⊢
  have herase : ∀ {token : Token} {x : Instant × Instant}, s.pings[token]? = some x →
      (s.pings.erase token).size + 1 = s.pings.size := fun {token x} hx => by
    have hc : s.pings.contains token = true := by
      rw [TreeMap.contains_eq_isSome_getElem?, hx]
      rfl
    have hpos := FiniteMap.size_pos hc
    rw [TreeMap.size_erase, if_pos hc]
    omega
  cases hp with
  | worked works => exact works.effect
  | data =>
    refine .inside rfl ?_ (le_max_left ..) (le_max_left ..)
    simp only [load, List.length_append, List.length_singleton]
    omega
  | answered pong named waiting =>
    have hsize := herase waiting
    refine .inside rfl ?_ (le_max_left ..) (le_max_of_le_left TreeMap.size_erase_le)
    simp only [load, List.length_append, List.length_singleton]
    omega
  | stale pong named waiting =>
    have hsize := herase waiting
    refine .inside rfl ?_ (le_max_left ..) (le_max_of_le_left TreeMap.size_erase_le)
    simp only [load]
    omega
  | fatal code => exact (close_effect s _ none).mono (Nat.zero_le 2)

def Metered (n : Nat) (s s' : Session) : Prop :=
  ∃ mid k, Effect 0 s mid ∧ Effect k mid s' ∧ k ≤ n ∧
    (k = 0 ∨ mid.events.length < mid.eventLimit)

theorem Effect.metered (h : Effect 0 s s') (n : Nat) : Metered n s s' :=
  ⟨s', 0, h, .refl s', Nat.zero_le n, .inl rfl⟩

theorem Metered.effect (h : Metered n s s') : Effect n s s' := by
  obtain ⟨mid, k, h₀, h₁, hk, -⟩ := h
  exact (h₀.trans h₁).mono (by omega)

theorem receive_metered (s : Session) (f : VerifiedFrame) (registry : Registry) (now : Instant) :
    Metered 2 s (s.receive f registry now).2 := by
  have ht := tick_effect s now
  have hp := fun live => receiveParts_effect (s := s.tick now) live f.wire.header.frameType
    f.wire.header.streamId f.wire.payload registry
  have hd := s.receive_dispatched f registry now
  generalize s.receive f registry now = out at hd ⊢
  cases hd with
  | late => exact (Effect.refl s).metered 2
  | crowded =>
    exact (ht.trans (close_effect _ (some ⟨.local_, .resourceLimit⟩) none)).metered 2
  | @failed e s' live room failure code cause parts =>
    have hp := hp live
    rw [parts] at hp
    exact ⟨s.tick now, 2, ht, hp.trans (close_effect s' (some failure) (some code)), le_rfl,
      .inr room⟩
  | served live room parts =>
    have hp := hp live
    rw [parts] at hp
    exact ⟨s.tick now, 2, ht, hp, le_rfl, .inr room⟩

end Session

def Call.plain : Call → Bool
  | .popEvent | .popStreamEvent _ | .popOutbound | .budget _ => false
  | _ => true

/-- A ping is asked for only while the queue of events is below its limit; the
source does not check this. -/
def Party.Paced (p : Party) : Call → Prop
  | .ping _ _ _ => p.session.events.length < p.session.eventLimit
  | _ => True

namespace Party

variable {p : Party}

theorem run_metered (hs : p.session.Sound) {c : Call} (hc : c.plain = true) (hp : p.Paced c) :
    Session.Metered 2 p.session (p.run c).session := by
  have hturn := run_turn hs.ids c
  generalize (p.run c).session = s at hturn ⊢
  cases hturn with
  | worked works few room => exact ⟨p.session, _, .refl _, works.effect, few, room⟩
  | @overfull _ stream =>
    exact ((Session.terminate_works _ _ (I := (· = stream.wireId)) rfl).effect.trans
      (Session.close_effect _ _ none)).metered 2
  | @pinged token timeout now s' works live few =>
    exact ⟨p.session, 1, .refl _, Session.pinged_effect works few token (now, now + timeout),
      by omega, .inr hp⟩
  | ticked now => exact (Session.tick_effect _ now).metered 2
  | read reads => cases c <;> cases reads <;> cases hc
  | taken | lent => cases hc
  | sent kind id => exact (Session.sent_effect _ kind id).metered 2
  | received f registry now => exact Session.receive_metered _ f registry now
  | closed failure response => exact (Session.close_effect _ failure response).metered 2

theorem run_effect (hs : p.session.Sound) {c : Call} (hc : c.plain = true) :
    Session.Effect 2 p.session (p.run c).session := by
  by_cases hp : p.Paced c
  · exact (run_metered hs hc hp).effect
  · cases c with
    | ping token timeout now =>
      have hturn := run_turn hs.ids (.ping token timeout now)
      generalize (p.run (.ping token timeout now)).session = s at hturn ⊢
      cases hturn with
      | worked works few => exact works.effect.mono few
      | pinged works live few =>
        exact (Session.pinged_effect works few token (now, now + timeout)).mono (by omega)
      | read reads => cases reads
    | _ => exact absurd trivial hp

end Party

end TalkSphere
