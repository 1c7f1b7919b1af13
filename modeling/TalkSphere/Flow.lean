import TalkSphere.EndpointRuns
import TalkSphere.Scheduler

/-! One direction between two honest endpoints: the messages on the way are the
channel followed by the sender's queue, and they stay legal for the receiver. -/

namespace TalkSphere

namespace StreamIds

/-- `ids` continue the numbering from `greatest` up to `last`. -/
def Follows (odd : Bool) : UInt32 → List UInt32 → UInt32 → Prop
  | greatest, [], last => greatest = last
  | greatest, id :: ids, last => following odd greatest = some id ∧ Follows odd id ids last

variable {odd : Bool} {greatest last : UInt32}

theorem follows_concat {ids : List UInt32} {id : UInt32} (h : Follows odd greatest ids last)
    (hn : following odd last = some id) : Follows odd greatest (ids ++ [id]) id := by
  induction ids generalizing greatest with
  | nil =>
    cases h
    exact ⟨hn, rfl⟩
  | cons a ids ih => exact ⟨h.1, ih h.2⟩

theorem Follows.le {ids : List UInt32} (hg : greatest = 0 ∨ ofParity odd greatest = true)
    (h : Follows odd greatest ids last) : greatest ≤ last := by
  induction ids generalizing greatest with
  | nil =>
    cases h
    exact UInt32.le_refl _
  | cons a ids ih =>
    obtain ⟨hp, hlt, -⟩ := following_eq_some hg h.1
    exact UInt32.le_trans (UInt32.le_of_lt hlt) (ih (.inr hp) h.2)

theorem Follows.mem {ids : List UInt32} (hg : greatest = 0 ∨ ofParity odd greatest = true)
    (h : Follows odd greatest ids last) {j : UInt32} (hj : ofParity odd j = true)
    (hlt : greatest < j) (hle : j ≤ last) : j ∈ ids := by
  induction ids generalizing greatest with
  | nil =>
    cases h
    exact absurd hlt (UInt32.not_lt.mpr hle)
  | cons a ids ih =>
    obtain ⟨hp, -, hleast⟩ := following_eq_some hg h.1
    by_cases he : j = a
    · exact he ▸ List.mem_cons_self
    · refine List.mem_cons_of_mem _ (ih (.inr hp) h.2 ?_)
      exact UInt32.lt_of_le_of_ne (hleast j hj hlt) (Ne.symm he)

end StreamIds

open StreamIds (Follows following ofParity)

namespace Message

/-- The order of two messages of one stream. -/
def Before (m m' : Message) : Prop := m.stage < m'.stage ∨ (m.stage = 1 ∧ m'.stage = 1)

/-- What an honest endpoint sends: well-formed frames whose failures have the
reasons the protocol gives. -/
def Honest : Message → Prop
  | .open_ id | .data id _ | .end_ id => id ≠ 0
  | .stop id outcome => id ≠ 0 ∧ (outcome.Plain ∨ outcome = .failed ⟨.peer, .refused⟩)
  | .fatal code => code.Plain
  | .malformed _ => False
  | _ => True

end Message

namespace Endpoint

/-- No message of stream `i` has reached this stage yet. -/
def ceiling (e : Endpoint) (i : UInt32) : Nat :=
  if e.ids.wasCreated i then
    match e.streams i with
    | some st => if st.localOpen then 2 else 3
    | none => 4
  else 0

theorem ceiling_pos {e : Endpoint} {i : UInt32} {n : Nat} (h : n < e.ceiling i) :
    e.ids.wasCreated i = true := by
  unfold ceiling at h
  split at h
  · assumption
  · omega

theorem three_le_ceiling {e : Endpoint} {i : UInt32} (hc : e.ids.wasCreated i = true)
    (hl : ∀ st, e.streams i = some st → st.localOpen = false) : 3 ≤ e.ceiling i := by
  unfold ceiling
  rw [if_pos hc]
  cases hst : e.streams i with
  | none => simp
  | some st => simp [hl st hst]

theorem localOpen_of_ceiling {e : Endpoint} {i : UInt32} {st : StreamState}
    (hst : e.streams i = some st) (h : 2 < e.ceiling i) : st.localOpen = false := by
  unfold ceiling at h
  cases hl : st.localOpen with
  | false => rfl
  | true =>
    rw [hst] at h
    split at h <;> simp [hl] at h

end Endpoint

/-- Messages from `a` that `b` has not read. -/
def way (a : Endpoint) (channel : List Message) : List Message := channel ++ a.queue

def opens (l : List Message) : List UInt32 := l.filterMap Message.openId

structure Flow (a : Endpoint) (channel : List Message) (b : Endpoint) : Prop where
  chain : ∃ lost, Follows a.ids.localOdd b.ids.greatestRemote (opens (way a channel) ++ lost)
    a.ids.greatestLocal ∧ (a.closed = false → lost = [])
  order : (way a channel).Pairwise fun m m' => m.id ≠ 0 → m.id = m'.id → m.Before m'
  below : ∀ m ∈ way a channel, m.id ≠ 0 → m.stage < a.ceiling m.id
  half : ∀ i st, b.streams i = some st → st.remoteOpen = false →
    a.ids.wasCreated i = true ∧ (∀ m ∈ way a channel, m.id = i → 3 ≤ m.stage) ∧
      ∀ st', a.streams i = some st' → st'.localOpen = false
  announced : ∀ m ∈ way a channel, m.id ≠ 0 → b.ids.wasCreated m.id = false →
    .open_ m.id ∈ way a channel
  bound : ∀ last code, .goAway last code ∈ way a channel →
    last = a.acceptedRemote ∧ a.goawaySent = true ∧ b.peerGoaway = none
  final : (way a channel).Pairwise fun m m' =>
    m.isGoAway = true → m'.isGoAway = false ∧ m'.isOpen = false
  drained : b.peerGoaway.isSome → a.goawaySent = true ∧ ∀ m ∈ way a channel, m.isOpen = false
  honest : ∀ m ∈ way a channel, m.Honest

/-- The state of one direction. Nothing is promised to a receiver that has closed. -/
structure Direction (a : Endpoint) (channel : List Message) (b : Endpoint) : Prop where
  parity : b.ids.localOdd = !a.ids.localOdd
  remote_le : b.ids.greatestRemote ≤ a.ids.greatestLocal
  live : b.closed = false → Flow a channel b

/-- A step of the receiver that reads nothing. -/
structure Settles (b b' : Endpoint) : Prop where
  odd : b'.ids.localOdd = b.ids.localOdd
  remote : b'.ids.greatestRemote = b.ids.greatestRemote
  locals : b.ids.greatestLocal ≤ b'.ids.greatestLocal
  peer : b'.peerGoaway = b.peerGoaway
  half : ∀ {i : UInt32} {st : StreamState}, b'.streams i = some st → st.remoteOpen = false →
    ∃ old, b.streams i = some old ∧ old.remoteOpen = false
  closed : b.closed = true → b'.closed = true

variable {a b b' : Endpoint} {channel : List Message} {m : Message}

theorem Settles.of_sub (hids : b'.ids = b.ids) (hp : b'.peerGoaway = b.peerGoaway)
    (hc : b'.closed = b.closed)
    (hsub : ∀ i st, b'.streams i = some st → b.streams i = some st) : Settles b b' :=
  ⟨hids ▸ rfl, hids ▸ rfl, hids ▸ UInt32.le_refl _, hp, fun hst hr => ⟨_, hsub _ _ hst, hr⟩,
    hc ▸ id⟩

theorem update_none_sub {streams : UInt32 → Option StreamState} {id i : UInt32} {st : StreamState}
    (h : Function.update streams id none i = some st) : streams i = some st := by
  rw [Function.update_apply] at h
  split at h
  · cases h
  · exact h

theorem Settles.created (h : Settles b b') {i : UInt32} (hc : b'.ids.wasCreated i = false) :
    b.ids.wasCreated i = false := by
  rw [← Bool.not_eq_true, StreamIds.wasCreated_iff] at hc ⊢
  rw [h.odd, h.remote] at hc
  refine fun hold => hc (hold.imp_left fun hl => ⟨hl.1, UInt32.le_trans hl.2 h.locals⟩)

theorem Flow.settles (hf : Flow a channel b) (h : Settles b b') : Flow a channel b' where
  chain := h.remote ▸ hf.chain
  order := hf.order
  below := hf.below
  half i st hst hr := by
    obtain ⟨old, hold, hro⟩ := h.half hst hr
    exact hf.half i old hold hro
  announced k hk h0 hc := hf.announced k hk h0 (h.created hc)
  bound := h.peer ▸ hf.bound
  final := hf.final
  drained := h.peer ▸ hf.drained
  honest := hf.honest

theorem Direction.settles (hd : Direction a channel b) (h : Settles b b') :
    Direction a channel b' where
  parity := h.odd ▸ hd.parity
  remote_le := h.remote ▸ hd.remote_le
  live hopen := (hd.live (by
    by_contra hc
    rw [h.closed (by simpa using hc)] at hopen
    cases hopen)).settles h

theorem way_cons (a : Endpoint) (m : Message) (channel : List Message) :
    way a (m :: channel) = m :: way a channel := rfl

theorem Flow.tail (hf : Flow a (m :: channel) b) (hm : m.isOpen = false) : Flow a channel b := by
  have hsub : ∀ k ∈ way a channel, k ∈ way a (m :: channel) := fun k => List.mem_cons_of_mem m
  have ho : opens (way a (m :: channel)) = opens (way a channel) := by
    have hn : m.openId = none := by cases m <;> first | rfl | cases hm
    simp [opens, way_cons, hn]
  refine ⟨ho ▸ hf.chain, hf.order.of_cons, fun k hk => hf.below k (hsub k hk), ?_, ?_,
    fun last code hk => hf.bound last code (hsub _ hk), hf.final.of_cons, ?_,
    fun k hk => hf.honest k (hsub k hk)⟩
  · intro i st hst hr
    obtain ⟨hc, hstage, hl⟩ := hf.half i st hst hr
    exact ⟨hc, fun k hk => hstage k (hsub k hk), hl⟩
  · intro k hk h0 hc
    have hk := hf.announced k (hsub k hk) h0 hc
    rcases List.mem_cons.mp hk with he | hk
    · rw [← he] at hm
      cases hm
    · exact hk
  · intro hp
    exact ⟨(hf.drained hp).1, fun k hk => (hf.drained hp).2 k (hsub k hk)⟩

theorem Flow.head_created (hf : Flow a (m :: channel) b) (h0 : m.id ≠ 0) (hm : m.isOpen = false) :
    b.ids.wasCreated m.id = true := by
  by_contra hc
  have hopen := hf.announced m List.mem_cons_self h0 (by simpa using hc)
  rcases List.mem_cons.mp hopen with he | hin
  · rw [← he] at hm
    cases hm
  · have hb := (List.pairwise_cons.mp hf.order).1 _ hin h0 rfl
    simp [Message.Before, Message.stage] at hb

theorem Flow.head_remote_open (hf : Flow a (m :: channel) b) (hs : m.stage < 3) {st : StreamState}
    (hst : b.streams m.id = some st) : st.remoteOpen = true := by
  by_contra hr
  have := (hf.half m.id st hst (by simpa using hr)).2.1 m List.mem_cons_self rfl
  omega

theorem Flow.head_open {id : UInt32} (hf : Flow a (.open_ id :: channel) b) :
    following a.ids.localOdd b.ids.greatestRemote = some id := by
  obtain ⟨lost, hc, -⟩ := hf.chain
  exact hc.1

theorem Direction.legal {back : List Message} (hd : Direction a (m :: channel) b)
    (hback : Direction b back a) (ha : a.Own) (hb : b.Own) (hopen : b.closed = false) :
    ¬ b.Illegal m := by
  have hf := hd.live hopen
  have hhon := hf.honest m List.mem_cons_self
  intro hi
  cases m with
  | open_ id =>
    refine hi ?_
    rw [hb.ids.next_remote, hd.parity, Bool.not_not]
    exact hf.head_open
  | data id bytes =>
    have hc : b.ids.wasCreated id = true := hf.head_created hhon rfl
    rcases hi with hi | ⟨st, hst, hr⟩
    · exact absurd hc (by simp [hi])
    · exact absurd (hf.head_remote_open (by simp [Message.stage]) hst) (by simp [hr])
  | end_ id =>
    have hc : b.ids.wasCreated id = true := hf.head_created hhon rfl
    rcases hi with hi | ⟨st, hst, hr⟩
    · exact absurd hc (by simp [hi])
    · exact absurd (hf.head_remote_open (by simp [Message.stage]) hst) (by simp [hr])
  | stop id outcome =>
    have hc : b.ids.wasCreated id = true := hf.head_created hhon.1 rfl
    exact absurd hc (by rw [show b.ids.wasCreated id = false from hi]; decide)
  | probe => exact hi
  | goAway last code =>
    obtain ⟨rfl, -, hpeer⟩ := hf.bound last code List.mem_cons_self
    have hacc := ha.accepted
    rcases hi with ⟨h0, hl⟩ | hlt | ⟨previous, hp, -⟩
    · have hp := (hacc.resolve_left h0).1
      rw [StreamIds.isLocal_eq, hd.parity, hp] at hl
      cases hl
    · have hle : a.acceptedRemote ≤ b.ids.greatestLocal := by
        rcases hacc with h0 | h0
        · rw [h0]
          exact UInt32.le_iff_toNat_le.mpr (Nat.zero_le _)
        · exact UInt32.le_trans h0.2 hback.remote_le
      exact absurd hlt (UInt32.not_lt.mpr hle)
    · rw [hpeer] at hp
      cases hp
  | fatal code => exact hi
  | malformed id => exact hhon

theorem Flow.accept {id : UInt32} {ids : StreamIds} (hf : Flow a (.open_ id :: channel) b)
    (hb : b.Own) (hid : b.ids.accept id = (.ok (), ids)) (hids : b'.ids = ids)
    (hp : b'.peerGoaway = b.peerGoaway)
    (hst : ∀ i st, b'.streams i = some st → b.streams i = some st ∨ st.remoteOpen = true) :
    Flow a channel b' := by
  have hw := StreamIds.wasCreated_accept hb.ids hid
  obtain ⟨hn, hacc⟩ := StreamIds.accept_ok hid
  have hsub : ∀ k ∈ way a channel, k ∈ way a (.open_ id :: channel) :=
    fun k => List.mem_cons_of_mem _
  have hcold : ∀ {i}, b'.ids.wasCreated i = false → b.ids.wasCreated i = false ∧ i ≠ id := by
    intro i hc
    rw [← Bool.not_eq_true, hids, hw] at hc
    simpa using hc
  obtain ⟨lost, hchain, hlost⟩ := hf.chain
  refine ⟨⟨lost, ?_, hlost⟩, hf.order.of_cons, fun k hk => hf.below k (hsub k hk), ?_, ?_,
    fun last code hk => hp ▸ hf.bound last code (hsub _ hk), hf.final.of_cons, ?_,
    fun k hk => hf.honest k (hsub k hk)⟩
  · rw [hids, hacc]
    exact hchain.2
  · intro i st hi hr
    rcases hst i st hi with hold | ho
    · obtain ⟨hc, hstage, hl⟩ := hf.half i st hold hr
      exact ⟨hc, fun k hk => hstage k (hsub k hk), hl⟩
    · rw [ho] at hr
      cases hr
  · intro k hk h0 hc
    obtain ⟨hc, hne⟩ := hcold hc
    have hk := hf.announced k (hsub k hk) h0 hc
    rcases List.mem_cons.mp hk with he | hk
    · exact absurd (Message.open_.inj he) hne
    · exact hk
  · rw [hp]
    intro hs
    exact ⟨(hf.drained hs).1, fun k hk => (hf.drained hs).2 k (hsub k hk)⟩

theorem Flow.ended {id : UInt32} {st : StreamState} (hf : Flow a (.end_ id :: channel) b)
    (hids : b'.ids = b.ids) (hp : b'.peerGoaway = b.peerGoaway)
    (hst : b'.streams = Function.update b.streams id (some { st with remoteOpen := false })) :
    Flow a channel b' := by
  have ht := hf.tail rfl
  have h0 : id ≠ 0 := hf.honest _ List.mem_cons_self
  refine { ht with
    chain := hids ▸ ht.chain
    half := fun i st' hi hr => ?_
    announced := hids ▸ ht.announced
    bound := hp ▸ ht.bound
    drained := hp ▸ ht.drained }
  rw [hst, Function.update_apply] at hi
  split at hi
  case isFalse => exact ht.half i st' hi hr
  case isTrue he =>
    have hb : 2 < a.ceiling i := he ▸ hf.below (.end_ id) List.mem_cons_self h0
    refine ⟨Endpoint.ceiling_pos hb, fun k hk hki => ?_, fun st' hst' =>
      Endpoint.localOpen_of_ceiling hst' hb⟩
    have hbefore := (List.pairwise_cons.mp hf.order).1 k hk h0 (by rw [hki, he]; rfl)
    have h2 : (Message.end_ id).stage = 2 := rfl
    unfold Message.Before at hbefore
    omega

theorem Flow.goAway {last : UInt32} {code : ErrorCode} (hf : Flow a (.goAway last code :: channel) b)
    (hids : b'.ids = b.ids) (hst : ∀ i st, b'.streams i = some st → b.streams i = some st) :
    Flow a channel b' := by
  have ht := hf.tail rfl
  have hfin := (List.pairwise_cons.mp hf.final).1
  refine { ht with
    chain := hids ▸ ht.chain
    half := fun i st hi hr => ht.half i st (hst i st hi) hr
    announced := hids ▸ ht.announced
    bound := fun last' code' hk => ?_
    drained := fun _ => ?_ }
  · exact absurd (hfin _ hk rfl).1 (by simp [Message.isGoAway])
  · exact ⟨(hf.bound last code List.mem_cons_self).2.1, fun k hk => (hfin k hk rfl).2⟩

theorem Flow.consume (hf : Flow a (m :: channel) b) (hb : b.Own)
    (hc : Endpoint.Consume m b b') (hopen' : b'.closed = false) : Flow a channel b' := by
  cases hc with
  | admitted context stream protocol _ hsent hpeer hid hs =>
    refine hf.accept hb hid rfl rfl fun i st hi => ?_
    simp only [Endpoint.enroll, Function.update_apply] at hi
    split at hi
    · cases hi
      exact .inr rfl
    · exact .inl hi
  | refused reply _ hid hr => exact hf.accept hb hid rfl rfl fun i st => .inl
  | data => exact (hf.tail rfl).settles (.of_sub rfl rfl rfl fun _ _ => id)
  | overflow => exact (hf.tail rfl).settles (.of_sub rfl rfl rfl fun _ _ => update_none_sub)
  | end_ _ hstream hr => exact hf.ended rfl rfl rfl
  | stop => exact (hf.tail rfl).settles (.of_sub rfl rfl rfl fun _ _ => update_none_sub)
  | ignored _ h0 hm => exact hf.tail hm
  | goAway _ hlog =>
    refine hf.goAway rfl fun i st hi => ?_
    simp only at hi
    split at hi
    · cases hi
    · exact hi
  | probe => exact hf.tail rfl
  | fatal => cases hopen'

theorem Direction.consume (hd : Direction a (m :: channel) b) (hb : b.Own)
    (hc : Endpoint.Consume m b b') (hopen : b.closed = false) : Direction a channel b' := by
  have hf := hd.live hopen
  refine ⟨?_, ?_, hf.consume hb hc⟩
  · cases hc with
    | admitted context stream protocol _ hsent hpeer hid hs =>
      have := (StreamIds.accept_ok hid).2
      subst this
      exact hd.parity
    | refused reply _ hid hr =>
      have := (StreamIds.accept_ok hid).2
      subst this
      exact hd.parity
    | _ => exact hd.parity
  · have haccept : ∀ {id ids}, m = .open_ id → b.ids.accept id = (.ok (), ids) →
        ids.greatestRemote ≤ a.ids.greatestLocal := by
      rintro id ids rfl hid
      obtain ⟨hn, rfl⟩ := StreamIds.accept_ok hid
      obtain ⟨lost, hchain, -⟩ := hf.chain
      have hpar := hb.ids.remote_parity
      rw [hd.parity, Bool.not_not] at hpar
      exact hchain.2.le (.inr (StreamIds.following_eq_some hpar hchain.1).1)
    cases hc with
    | admitted context stream protocol _ hsent hpeer hid hs => exact haccept rfl hid
    | refused reply _ hid hr => exact haccept rfl hid
    | _ => exact hd.remote_le

theorem way_emit {rest : List Message} (hp : Session.Picks a.queue m rest) :
    List.Perm (way { a with queue := rest } (channel ++ [m])) (way a channel) := by
  obtain ⟨pre, post, hq, hr, -⟩ := hp.split
  simp only [way, hq, hr, List.append_assoc, List.singleton_append]
  exact List.perm_middle.symm.append_left channel

theorem Flow.emit {rest : List Message} (hf : Flow a channel b)
    (hp : Session.Picks a.queue m rest) : Flow { a with queue := rest } (channel ++ [m]) b := by
  obtain ⟨pre, post, hq, hr, hid, hopen⟩ := hp.split
  have hway : way a channel = channel ++ (pre ++ m :: post) := by rw [way, hq]
  have hway' : way { a with queue := rest } (channel ++ [m]) = channel ++ (m :: (pre ++ post)) := by
    simp [way, hr]
  have hperm : List.Perm (way { a with queue := rest } (channel ++ [m])) (way a channel) :=
    way_emit hp
  have hpair : ∀ {R : Message → Message → Prop}, (way a channel).Pairwise R →
      (∀ k ∈ pre, R m k) → (way { a with queue := rest } (channel ++ [m])).Pairwise R := by
    intro R h hm
    rw [hway] at h
    rw [hway']
    simp only [List.pairwise_append, List.pairwise_cons, List.mem_append, List.mem_cons] at h ⊢
    grind
  have hopens : opens (way { a with queue := rest } (channel ++ [m])) = opens (way a channel) := by
    rw [hway, hway']
    simp only [opens, List.filterMap_append, List.filterMap_cons]
    cases m with
    | open_ id =>
      have hpre : pre.filterMap Message.openId = [] := by
        rw [List.filterMap_eq_nil_iff]
        intro k hk
        have := hopen (.inl rfl) k hk
        cases k <;> first | rfl | cases this
      simp [Message.openId, hpre]
    | _ => simp [Message.openId]
  refine ⟨?_, hpair hf.order fun k hk _ he => absurd he.symm (hid k hk), ?_, ?_, ?_, ?_,
    hpair hf.final ?_, ?_, ?_⟩
  · rw [hopens]
    exact hf.chain
  · exact fun k hk => hf.below k (hperm.mem_iff.mp hk)
  · intro i st hst hr
    obtain ⟨hc, hs, hl⟩ := hf.half i st hst hr
    exact ⟨hc, fun k hk => hs k (hperm.mem_iff.mp hk), hl⟩
  · exact fun k hk h0 hc => hperm.mem_iff.mpr (hf.announced k (hperm.mem_iff.mp hk) h0 hc)
  · exact fun last code hk => hf.bound last code (hperm.mem_iff.mp hk)
  · intro k hk hm
    refine ⟨?_, hopen (.inr hm) k hk⟩
    have hf := hf.final
    rw [hway, List.pairwise_append] at hf
    have hkm := (List.pairwise_append.mp hf.2.1).2.2 k hk m List.mem_cons_self
    by_contra hg
    exact absurd (hkm (by simpa using hg)).1 (by simp [hm])
  · exact fun hs => ⟨(hf.drained hs).1, fun k hk => (hf.drained hs).2 k (hperm.mem_iff.mp hk)⟩
  · exact fun k hk => hf.honest k (hperm.mem_iff.mp hk)

theorem Direction.emit {rest : List Message} (hd : Direction a channel b)
    (hp : Session.Picks a.queue m rest) :
    Direction { a with queue := rest } (channel ++ [m]) b :=
  ⟨hd.parity, hd.remote_le, fun hopen => (hd.live hopen).emit hp⟩

end TalkSphere
