import TalkSphere.Flow

/-! The sender's side of a direction: every step of an endpoint keeps part of its
queue and adds at most one message, and this keeps the messages on the way legal. -/

namespace TalkSphere

open StreamIds (Follows following ofParity)

theorem mem_opens {l : List Message} {i : UInt32} : i ∈ opens l ↔ .open_ i ∈ l := by
  simp only [opens, List.mem_filterMap]
  constructor
  · rintro ⟨m, hm, he⟩
    cases m <;> cases he
    exact hm
  · exact fun h => ⟨_, h, rfl⟩

structure Sends (a a' : Endpoint) (kept : List Message) (added : Option Message) : Prop where
  queue : a'.queue = kept ++ added.toList
  kept_sub : kept.Sublist a.queue
  odd : a'.ids.localOdd = a.ids.localOdd
  closed : a.closed = true → a'.closed = true
  opens_kept : a'.closed = false → opens kept = opens a.queue
  shut : a'.closed = true → (kept = [] ∨ kept = a.queue) ∧ ∀ m ∈ added, m.id = 0
  numbering : (a'.ids.greatestLocal = a.ids.greatestLocal ∧ ∀ m ∈ added, m.isOpen = false) ∨
    ∃ id, added = some (.open_ id) ∧ following a.ids.localOdd a.ids.greatestLocal = some id ∧
      a'.ids.greatestLocal = id ∧ a.goawaySent = false ∧ a'.closed = false
  ceiling : ∀ i, a.ceiling i ≤ a'.ceiling i
  stage : ∀ m ∈ added, m.id ≠ 0 → m.stage < a'.ceiling m.id ∧
    (a.ceiling m.id ≤ m.stage ∨ m.stage = 1 ∧ a.ceiling m.id ≤ 2)
  open_half : ∀ i st', a'.streams i = some st' → st'.localOpen = true →
    (∃ st, a.streams i = some st ∧ st.localOpen = true) ∨ a.ids.wasCreated i = false
  bound : (a'.goawaySent = a.goawaySent ∧
      (a.goawaySent = true → a'.acceptedRemote = a.acceptedRemote) ∧
      ∀ m ∈ added, m.isGoAway = false) ∨
    (a.goawaySent = false ∧ a'.goawaySent = true ∧ a'.acceptedRemote = a.acceptedRemote ∧
      ∃ code, added = some (.goAway a.acceptedRemote code))
  honest : ∀ m ∈ added, m.Honest

variable {a a' b : Endpoint} {channel kept : List Message} {added : Option Message}

namespace Sends

theorem open_of_open (hs : Sends a a' kept added) (ho : a'.closed = false) : a.closed = false := by
  by_contra hc
  rw [hs.closed (by simpa using hc)] at ho
  cases ho

theorem way_eq (hs : Sends a a' kept added) :
    way a' channel = (channel ++ kept) ++ added.toList := by
  rw [way, hs.queue, List.append_assoc]

theorem kept_way (hs : Sends a a' kept added) : (channel ++ kept).Sublist (way a channel) :=
  hs.kept_sub.append_left channel

theorem mem_way (hs : Sends a a' kept added) {m : Message} (hm : m ∈ way a' channel) :
    (m ∈ channel ++ kept ∧ m ∈ way a channel) ∨ m ∈ added := by
  rw [hs.way_eq, List.mem_append] at hm
  exact hm.imp (fun h => ⟨h, hs.kept_way.subset h⟩) Option.mem_toList.mp

theorem pairwise {R : Message → Message → Prop} (hs : Sends a a' kept added)
    (hold : (way a channel).Pairwise R) (hnew : ∀ m ∈ added, ∀ k ∈ way a channel, R k m) :
    (way a' channel).Pairwise R := by
  rw [hs.way_eq, List.pairwise_append]
  refine ⟨hold.sublist hs.kept_way, ?_, fun k hk m hm => ?_⟩
  · cases added <;> simp
  · exact hnew m (Option.mem_toList.mp hm) k (hs.kept_way.subset hk)

theorem goawaySent (hs : Sends a a' kept added) (hg : a.goawaySent = true) :
    a'.goawaySent = true := by
  rcases hs.bound with ⟨he, -⟩ | ⟨hn, -⟩
  · rw [he, hg]
  · rw [hg] at hn
    cases hn

theorem added_final (hs : Sends a a' kept added) (hg : a.goawaySent = true) {m : Message}
    (hm : m ∈ added) : m.isGoAway = false ∧ m.isOpen = false := by
  constructor
  · rcases hs.bound with ⟨-, -, hn⟩ | ⟨hn, -⟩
    · exact hn m hm
    · rw [hg] at hn
      cases hn
  · rcases hs.numbering with ⟨-, hn⟩ | ⟨id, -, -, -, hn, -⟩
    · exact hn m hm
    · rw [hg] at hn
      cases hn

theorem created (hs : Sends a a' kept added) {i : UInt32} (hc : a.ids.wasCreated i = true) :
    a'.ids.wasCreated i = true := by
  refine Endpoint.ceiling_pos (n := 1) (lt_of_lt_of_le ?_ (hs.ceiling i))
  unfold Endpoint.ceiling
  rw [if_pos hc]
  split
  · split <;> decide
  · decide

theorem chain (hs : Sends a a' kept added) (hf : Flow a channel b) :
    ∃ lost, Follows a'.ids.localOdd b.ids.greatestRemote (opens (way a' channel) ++ lost)
      a'.ids.greatestLocal ∧ (a'.closed = false → lost = []) := by
  obtain ⟨lost, hchain, hlost⟩ := hf.chain
  have hw : opens (way a' channel) = opens channel ++ opens kept ++ opens added.toList := by
    rw [hs.way_eq]
    simp [opens]
  have hold : opens (way a channel) = opens channel ++ opens a.queue := by simp [opens, way]
  rw [hs.odd, hw]
  rcases hs.numbering with ⟨hg, hn⟩ | ⟨id, rfl, hnext, hg, -, hopen⟩
  · have hadd : opens added.toList = [] := by
      cases added with
      | none => rfl
      | some m =>
        have := hn m rfl
        cases m <;> first | rfl | cases this
    rw [hadd, List.append_nil, hg]
    cases hc : a'.closed with
    | false =>
      rw [hs.opens_kept hc, ← hold]
      exact ⟨lost, hchain, fun _ => hlost (hs.open_of_open hc)⟩
    | true =>
      rcases (hs.shut hc).1 with hk | hk
      · refine ⟨opens a.queue ++ lost, ?_, by simp⟩
        rw [hold] at hchain
        simpa [hk, opens] using hchain
      · rw [hk, ← hold]
        exact ⟨lost, hchain, by simp⟩
  · refine ⟨[], ?_, fun _ => rfl⟩
    rw [hs.opens_kept hopen, ← hold, hg]
    rw [hlost (hs.open_of_open hopen), List.append_nil] at hchain
    simpa [opens, Message.openId] using StreamIds.follows_concat hchain hnext

theorem announced_old (hs : Sends a a' kept added) (hf : Flow a channel b) {m : Message}
    (hk : m ∈ channel ++ kept) (h0 : m.id ≠ 0) (hc : b.ids.wasCreated m.id = false) :
    .open_ m.id ∈ way a' channel := by
  have hm := hs.kept_way.subset hk
  rw [hs.way_eq]
  refine List.mem_append_left _ ?_
  rcases List.mem_append.mp (hf.announced m hm h0 hc) with ho | ho
  · exact List.mem_append_left _ ho
  · cases hcl : a'.closed with
    | false =>
      rw [← mem_opens, ← hs.opens_kept hcl, mem_opens] at ho
      exact List.mem_append_right _ ho
    | true =>
      rcases (hs.shut hcl).1 with hnil | hall
      · -- `m` is in the channel and cannot stand before the OPEN of its stream
        rw [hnil, List.append_nil] at hk
        have hb := (List.pairwise_append.mp hf.order).2.2 m hk _ ho h0 rfl
        simp [Message.Before, Message.stage] at hb
      · exact List.mem_append_right _ (hall ▸ ho)

theorem announced_new (hs : Sends a a' kept added) (hf : Flow a channel b) (hb : b.Own)
    (hpar : b.ids.localOdd = !a.ids.localOdd)
    (hback : a'.ids.greatestRemote ≤ b.ids.greatestLocal) {m : Message} (hm : m ∈ added)
    (h0 : m.id ≠ 0) (hc : b.ids.wasCreated m.id = false) : .open_ m.id ∈ way a' channel := by
  obtain ⟨lost, hchain, hlost⟩ := hs.chain hf
  have hopen : a'.closed = false := by
    by_contra hcl
    exact h0 ((hs.shut (by simpa using hcl)).2 m hm)
  rw [hlost hopen, List.append_nil, hs.odd] at hchain
  have hcr := Endpoint.ceiling_pos (hs.stage m hm h0).1
  have hbp := hb.ids.remote_parity
  rw [hpar, Bool.not_not] at hbp
  rw [← Bool.not_eq_true, StreamIds.wasCreated_iff, hpar, Bool.not_not] at hc
  rw [StreamIds.wasCreated_iff, hs.odd] at hcr
  rcases hcr with ⟨hp, hle⟩ | ⟨hp, hle⟩
  · rw [← mem_opens]
    refine hchain.mem hbp hp ?_ hle
    rw [← UInt32.not_le]
    exact fun h => hc (.inr ⟨hp, h⟩)
  · exact absurd (.inl ⟨hp, UInt32.le_trans hle hback⟩) hc

end Sends

theorem Flow.sends (hf : Flow a channel b) (hs : Sends a a' kept added) (hb : b.Own)
    (hpar : b.ids.localOdd = !a.ids.localOdd)
    (hback : a'.ids.greatestRemote ≤ b.ids.greatestLocal) : Flow a' channel b where
  chain := hs.chain hf
  order := by
    refine hs.pairwise hf.order fun m hm k hk h0 he => ?_
    have hlt := hf.below k hk h0
    have hst := (hs.stage m hm (he ▸ h0)).2
    rw [← he] at hst
    unfold Message.Before
    omega
  below m hm h0 := by
    rcases hs.mem_way hm with ⟨-, hold⟩ | hnew
    · exact (hf.below m hold h0).trans_le (hs.ceiling m.id)
    · exact (hs.stage m hnew h0).1
  half i st hst hr := by
    obtain ⟨hc, hstage, hl⟩ := hf.half i st hst hr
    have h0 : i ≠ 0 := fun h => by simp [h, StreamIds.wasCreated] at hc
    refine ⟨hs.created hc, fun m hm hi => ?_, fun st' hst' => ?_⟩
    · rcases hs.mem_way hm with ⟨-, hold⟩ | hnew
      · exact hstage m hold hi
      · have h3 := Endpoint.three_le_ceiling hc hl
        have hst := (hs.stage m hnew (hi ▸ h0)).2
        rw [hi] at hst
        omega
    · by_contra ho
      rcases hs.open_half i st' hst' (by simpa using ho) with ⟨old, hold, hlo⟩ | hn
      · rw [hl old hold] at hlo
        cases hlo
      · rw [hc] at hn
        cases hn
  announced m hm h0 hc := by
    rcases hs.mem_way hm with ⟨hk, -⟩ | hnew
    · exact hs.announced_old hf hk h0 hc
    · exact hs.announced_new hf hb hpar hback hnew h0 hc
  bound last code hm := by
    rcases hs.mem_way hm with ⟨-, hold⟩ | hnew
    · obtain ⟨hlast, hg, hp⟩ := hf.bound last code hold
      refine ⟨?_, hs.goawaySent hg, hp⟩
      rcases hs.bound with ⟨-, he, -⟩ | ⟨hn, -⟩
      · rw [he hg, hlast]
      · rw [hg] at hn
        cases hn
    · rcases hs.bound with ⟨-, -, hn⟩ | ⟨hn, hg, hacc, code', hadd⟩
      · exact absurd (hn _ hnew) (by simp [Message.isGoAway])
      · rw [hadd] at hnew
        cases hnew
        refine ⟨hacc.symm, hg, ?_⟩
        by_contra hp
        have hd := (hf.drained (Option.isSome_iff_ne_none.mpr hp)).1
        rw [hn] at hd
        cases hd
  final := by
    refine hs.pairwise hf.final fun m hm k hk hg => ?_
    cases k with
    | goAway last code => exact hs.added_final (hf.bound last code hk).2.1 hm
    | _ => cases hg
  drained hp := by
    obtain ⟨hg, ho⟩ := hf.drained hp
    refine ⟨hs.goawaySent hg, fun m hm => ?_⟩
    rcases hs.mem_way hm with ⟨-, hold⟩ | hnew
    · exact ho m hold
    · exact (hs.added_final hg hnew).2
  honest m hm := by
    rcases hs.mem_way hm with ⟨-, hold⟩ | hnew
    · exact hf.honest m hold
    · exact hs.honest m hnew

theorem Sends.greatestLocal_le (hs : Sends a a' kept added) (ha : a.Own) :
    a.ids.greatestLocal ≤ a'.ids.greatestLocal := by
  rcases hs.numbering with ⟨he, -⟩ | ⟨id, -, hn, hg, -⟩
  · rw [he]
    exact UInt32.le_refl _
  · rw [hg]
    exact UInt32.le_of_lt (StreamIds.following_eq_some ha.ids.local_parity hn).2.1

theorem Direction.sends (hd : Direction a channel b) (hs : Sends a a' kept added) (ha : a.Own)
    (hb : b.Own) (hback : a'.ids.greatestRemote ≤ b.ids.greatestLocal) :
    Direction a' channel b :=
  ⟨hs.odd ▸ hd.parity, UInt32.le_trans hd.remote_le (hs.greatestLocal_le ha),
    fun hopen => (hd.live hopen).sends hs hb hd.parity hback⟩

end TalkSphere
