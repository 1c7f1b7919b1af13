import TalkSphere.FlowSender

/-! Each step of an honest endpoint, seen by the two directions it takes part in. -/

namespace TalkSphere

open StreamIds (Follows following ofParity)

variable {a a' b : Endpoint} {m : Message}

def Lowers (a a' : Endpoint) : Prop :=
  ∀ i st', a'.streams i = some st' → ∃ st, a.streams i = some st ∧
    (st'.localOpen = true → st.localOpen = true)

theorem Lowers.of_eq (h : a'.streams = a.streams) : Lowers a a' :=
  fun _ st' hst => ⟨st', h ▸ hst, id⟩

theorem Lowers.of_drop {id : UInt32} (h : a'.streams = Function.update a.streams id none) :
    Lowers a a' :=
  fun i st' hst => ⟨st', update_none_sub (by rw [← h]; exact hst), fun h => h⟩

theorem Lowers.of_edit {id : UInt32} {st new : StreamState} (hid : a.streams id = some st)
    (h : a'.streams = Function.update a.streams id (some new))
    (hl : new.localOpen = true → st.localOpen = true) : Lowers a a' := by
  intro i st' hst
  rw [h, Function.update_apply] at hst
  split at hst
  case isTrue he =>
    cases hst
    exact ⟨st, he ▸ hid, hl⟩
  case isFalse => exact ⟨st', hst, fun h => h⟩

theorem Lowers.ceiling (hl : Lowers a a') (hids : a'.ids = a.ids) (i : UInt32) :
    a.ceiling i ≤ a'.ceiling i := by
  unfold Endpoint.ceiling
  rw [hids]
  split
  case isFalse => exact le_rfl
  case isTrue =>
    cases hst : a'.streams i with
    | none => split <;> (try split) <;> simp
    | some st' =>
      obtain ⟨st, hold, himp⟩ := hl i st' hst
      simp only [hold]
      cases hlo : st'.localOpen with
      | false => split <;> simp
      | true => simp [himp hlo]

theorem Sends.of_lowers {kept : List Message} {added : Option Message} (hids : a'.ids = a.ids)
    (hl : Lowers a a') (hq : a'.queue = kept ++ added.toList) (hsub : kept.Sublist a.queue)
    (hc : a.closed = true → a'.closed = true)
    (hk : a'.closed = false → opens kept = opens a.queue)
    (hshut : a'.closed = true → (kept = [] ∨ kept = a.queue) ∧ ∀ m ∈ added, m.id = 0)
    (hm : ∀ m ∈ added, m.isOpen = false ∧ m.isGoAway = false ∧ m.Honest ∧ (m.id ≠ 0 →
      m.stage < a'.ceiling m.id ∧ (a.ceiling m.id ≤ m.stage ∨ m.stage = 1 ∧ a.ceiling m.id ≤ 2)))
    (hg : a'.goawaySent = a.goawaySent) (hacc : a'.acceptedRemote = a.acceptedRemote) :
    Sends a a' kept added where
  queue := hq
  kept_sub := hsub
  odd := hids ▸ rfl
  closed := hc
  opens_kept := hk
  shut := hshut
  numbering := .inl ⟨hids ▸ rfl, fun m h => (hm m h).1⟩
  ceiling := hl.ceiling hids
  stage m h := (hm m h).2.2.2
  open_half i st' hst ho := by
    obtain ⟨st, hold, himp⟩ := hl i st' hst
    exact .inl ⟨st, hold, himp ho⟩
  bound := .inl ⟨hg, fun _ => hacc, fun m h => (hm m h).2.1⟩
  honest m h := (hm m h).2.2.1

theorem Sends.quiet (hids : a'.ids = a.ids) (hl : Lowers a a') (hq : a'.queue = a.queue)
    (hc : a'.closed = a.closed) (hg : a'.goawaySent = a.goawaySent)
    (hacc : a'.acceptedRemote = a.acceptedRemote) : Sends a a' a.queue none :=
  .of_lowers hids hl (by simp [hq]) (List.Sublist.refl _) (hc ▸ id) (fun _ => rfl)
    (fun _ => ⟨.inr rfl, by simp⟩) (by simp) hg hacc

theorem opens_filter {p : Message → Bool} (hp : ∀ k, k.isOpen = true → p k = true)
    (l : List Message) : opens (l.filter p) = opens l := by
  induction l with
  | nil => rfl
  | cons k l ih =>
    simp only [opens] at ih ⊢
    by_cases hk : p k = true
    · simp [hk, List.filterMap_cons, ih]
    · have hn : k.openId = none := by
        cases k <;> first | rfl | exact absurd (hp _ rfl) hk
      simp [hk, ih, hn]

theorem opens_purge (id : UInt32) (l : List Message) : opens (Endpoint.purge id l) = opens l :=
  opens_filter (fun k hk => by simp [hk]) l

theorem ceiling_of_some {i : UInt32} {st : StreamState} (ha : a.Own) (hst : a.streams i = some st) :
    a.ceiling i = if st.localOpen then 2 else 3 := by
  simp [Endpoint.ceiling, ha.created hst, hst]

theorem ceiling_of_none {i : UInt32} (hc : a.ids.wasCreated i = true) (hst : a.streams i = none) :
    a.ceiling i = 4 := by
  simp [Endpoint.ceiling, hc, hst]

theorem id_ne_zero {i : UInt32} {st : StreamState} (ha : a.Own) (hst : a.streams i = some st) :
    i ≠ 0 := by
  intro h
  have := ha.created hst
  simp [h, StreamIds.wasCreated] at this

theorem Sends.of_drop {id : UInt32} {st : StreamState} (reply : Option StreamOutcome)
    (ha : a.Own) (hopen : a.closed = false) (hst : a.streams id = some st)
    (hr : ∀ o ∈ reply, o.Plain) (hids : a'.ids = a.ids)
    (hs : a'.streams = Function.update a.streams id none) (hc : a'.closed = false)
    (hq : a'.queue = Endpoint.purge id a.queue ++ reply.toList.map (.stop id))
    (hg : a'.goawaySent = a.goawaySent) (hacc : a'.acceptedRemote = a.acceptedRemote) :
    Sends a a' (Endpoint.purge id a.queue) (reply.map (.stop id)) := by
  refine .of_lowers hids (.of_drop hs) ?_ List.filter_sublist (by simp [hopen])
    (fun _ => opens_purge id a.queue) (by simp [hc]) (fun m hm => ?_) hg hacc
  · rw [hq]
    cases reply <;> rfl
  · obtain ⟨o, ho, rfl⟩ := Option.map_eq_some_iff.mp hm
    have hcr : a'.ids.wasCreated id = true := hids ▸ ha.created hst
    refine ⟨rfl, rfl, ⟨id_ne_zero ha hst, .inl (hr o ho)⟩, fun _ => ?_⟩
    have h1 := ceiling_of_some ha hst
    have h2 := ceiling_of_none hcr (by rw [hs, Function.update_self])
    simp only [Message.id, Message.stage, h1, h2]
    split <;> omega

theorem Sends.of_shut {events : List Event} {response : Option ErrorCode}
    (hr : ∀ code ∈ response, code.Plain) :
    Sends a (a.shut events response) [] (response.map .fatal) := by
  refine .of_lowers rfl (by simp [Lowers, Endpoint.shut]) ?_ (List.nil_sublist _) (fun _ => rfl)
    (by simp [Endpoint.shut]) (fun _ => ⟨.inl rfl, fun m hm => ?_⟩) (fun m hm => ?_) rfl rfl
  · cases response <;> rfl
  · obtain ⟨code, -, rfl⟩ := Option.map_eq_some_iff.mp hm
    rfl
  · obtain ⟨code, hcode, rfl⟩ := Option.map_eq_some_iff.mp hm
    exact ⟨rfl, rfl, hr code hcode, fun h => absurd rfl h⟩

theorem ceiling_created {id : UInt32}
    (hw : ∀ j, a'.ids.wasCreated j = true ↔ a.ids.wasCreated j = true ∨ j = id)
    (hfresh : a.ids.wasCreated id = false) (hs : ∀ i, i ≠ id → a'.streams i = a.streams i)
    (i : UInt32) : a.ceiling i ≤ a'.ceiling i := by
  unfold Endpoint.ceiling
  by_cases hi : i = id
  · subst hi
    simp [hfresh]
  · have hc : a'.ids.wasCreated i = a.ids.wasCreated i := by
      rw [Bool.eq_iff_iff, hw]
      simp [hi]
    rw [hc, hs i hi]

theorem open_half_created {id : UInt32} (hfresh : a.ids.wasCreated id = false)
    (hs : ∀ i, i ≠ id → a'.streams i = a.streams i) (i : UInt32) (st' : StreamState)
    (hst : a'.streams i = some st') (ho : st'.localOpen = true) :
    (∃ st, a.streams i = some st ∧ st.localOpen = true) ∨ a.ids.wasCreated i = false := by
  by_cases hi : i = id
  · exact .inr (hi ▸ hfresh)
  · exact .inl ⟨st', hs i hi ▸ hst, ho⟩

theorem Endpoint.Local.sends (ha : a.Own) (h : Endpoint.Local a a') :
    ∃ kept added, Sends a a' kept added := by
  cases h with
  | note events => exact ⟨_, _, .quiet rfl (.of_eq rfl) rfl rfl rfl rfl⟩
  | probe hopen =>
    refine ⟨a.queue, some .probe, .of_lowers rfl (.of_eq rfl) rfl (List.Sublist.refl _) id
      (fun _ => rfl) (fun hc => ?_) ?_ rfl rfl⟩
    · exact absurd hc (by simp [Endpoint.push, hopen])
    · rintro m ⟨⟩
      exact ⟨rfl, rfl, trivial, fun h => absurd rfl h⟩
  | @open_ id ids context stream protocol hopen hsent hpeer hid hs =>
    have hw := StreamIds.wasCreated_allocate ha.ids hid
    have hfresh := StreamIds.allocate_fresh ha.ids hid
    obtain ⟨hn, hids⟩ := StreamIds.allocate_ok hid
    have hnext := ha.ids.next_local ▸ hn
    have hst : ∀ i, i ≠ id → (Function.update a.streams id
        (some (⟨stream, true, true, false⟩ : StreamState))) i = a.streams i :=
      fun i hi => Function.update_of_ne hi _ _
    refine ⟨a.queue, some (.open_ id), ⟨rfl, List.Sublist.refl _, by rw [hids]; rfl, fun h => h,
      fun _ => rfl, fun hc => absurd hc (by simp [Endpoint.push, Endpoint.enroll, hopen]),
      .inr ⟨id, rfl, hnext, by rw [hids]; rfl, hsent, hopen⟩, ceiling_created hw hfresh hst, ?_,
      open_half_created hfresh hst, .inl ⟨rfl, fun _ => rfl, by rintro m ⟨⟩; rfl⟩, ?_⟩⟩
    · rintro m ⟨⟩ -
      have hcr : ids.wasCreated id = true := (hw id).mpr (.inr rfl)
      simp [Message.id, Message.stage, Endpoint.ceiling, hfresh, Endpoint.push, Endpoint.enroll, hcr]
    · rintro m ⟨⟩
      have hcr : ids.wasCreated id = true := (hw id).mpr (.inr rfl)
      exact fun h => by simp [h, StreamIds.wasCreated] at hcr
  | @send id st bytes hopen hstream hl hb =>
    refine ⟨a.queue, some (.data id bytes), .of_lowers rfl (.of_eq rfl) rfl (List.Sublist.refl _)
      (fun h => h) (fun _ => rfl) (fun hc => absurd hc (by simp [Endpoint.push, hopen])) ?_ rfl rfl⟩
    rintro m ⟨⟩
    have hc := ceiling_of_some ha hstream
    rw [if_pos hl] at hc
    refine ⟨rfl, rfl, id_ne_zero ha hstream, fun _ => ⟨?_, .inr ⟨rfl, hc.le⟩⟩⟩
    exact Nat.lt_of_lt_of_eq (by decide : 1 < 2) hc.symm
  | @end_ id st hopen hstream hl =>
    refine ⟨a.queue, some (.end_ id), .of_lowers rfl (.of_edit hstream rfl (by simp)) rfl
      (List.Sublist.refl _) (fun h => h) (fun _ => rfl)
      (fun hc => absurd hc (by simp [Endpoint.push, hopen])) ?_ rfl rfl⟩
    rintro m ⟨⟩
    have hc := ceiling_of_some ha hstream
    rw [if_pos hl] at hc
    refine ⟨rfl, rfl, id_ne_zero ha hstream, fun _ => ⟨?_, .inl hc.le⟩⟩
    simp [Message.id, Message.stage, Endpoint.ceiling, Endpoint.push, ha.created hstream]
  | reported id =>
    refine ⟨_, _, .quiet rfl (fun i st' hst => ?_) rfl rfl rfl rfl⟩
    simp only [Function.update_apply] at hst
    split at hst
    case isTrue he =>
      obtain ⟨old, hold, rfl⟩ := Option.map_eq_some_iff.mp hst
      exact ⟨old, he ▸ hold, fun h => h⟩
    case isFalse => exact ⟨st', hst, fun h => h⟩
  | completed => exact ⟨_, _, .quiet rfl (.of_drop rfl) rfl rfl rfl rfl⟩
  | stop reply hopen hstream ho hc hr =>
    exact ⟨_, _, .of_drop _ ha hopen hstream hr rfl rfl hopen rfl rfl rfl⟩
  | drain code hopen hsent =>
    refine ⟨a.queue, some (.goAway a.acceptedRemote code), ⟨rfl, List.Sublist.refl _, rfl, id,
      fun _ => rfl, fun hc => absurd hc (by simp [Endpoint.push, hopen]), .inl ⟨rfl, ?_⟩,
      fun _ => le_rfl, ?_, fun i st' hst ho => .inl ⟨st', hst, ho⟩,
      .inr ⟨hsent, rfl, rfl, code, rfl⟩, ?_⟩⟩
    · rintro m ⟨⟩; rfl
    · rintro m ⟨⟩ h
      exact absurd rfl h
    · rintro m ⟨⟩; trivial
  | close response hopen hc hf hr => exact ⟨_, _, .of_shut hr⟩

theorem Endpoint.Consume.sends (ha : a.Own) (h : Endpoint.Consume m a a') : ∃ kept added, Sends a a' kept added := by
  cases h with
  | @admitted _ id ids context stream protocol hopen hsent hpeer hid hs =>
    have hw := StreamIds.wasCreated_accept ha.ids hid
    have hfresh := StreamIds.accept_fresh ha.ids hid
    obtain ⟨hn, hids⟩ := StreamIds.accept_ok hid
    have hst : ∀ i, i ≠ id → (Function.update a.streams id
        (some (⟨stream, true, true, false⟩ : StreamState))) i = a.streams i :=
      fun i hi => Function.update_of_ne hi _ _
    exact ⟨a.queue, none, ⟨by simp [Endpoint.enroll], List.Sublist.refl _, by rw [hids]; rfl,
      fun h => h, fun _ => rfl, fun hc => absurd hc (by simp [Endpoint.enroll, hopen]),
      .inl ⟨by rw [hids]; rfl, by simp⟩, ceiling_created hw hfresh hst, by simp,
      open_half_created hfresh hst,
      .inl ⟨rfl, fun h => absurd h (by simp [hsent]), by simp⟩, by simp⟩⟩
  | @refused _ id ids reply hopen hid hr =>
    have hw := StreamIds.wasCreated_accept ha.ids hid
    have hfresh := StreamIds.accept_fresh ha.ids hid
    have hcr : ids.wasCreated id = true := (hw id).mpr (.inr rfl)
    have hnone : a.streams id = none := by
      cases hst : a.streams id with
      | none => rfl
      | some st => exact absurd (ha.created hst) (by simp [hfresh])
    obtain ⟨hn, hids⟩ := StreamIds.accept_ok hid
    refine ⟨a.queue, reply.map (.stop id), ⟨by cases reply <;> rfl, List.Sublist.refl _,
      by rw [hids], fun h => h, fun _ => rfl, fun hc => absurd hc (by simp [hopen]),
      .inl ⟨by rw [hids], ?_⟩, ceiling_created hw hfresh fun _ _ => rfl, ?_,
      open_half_created hfresh fun _ _ => rfl, .inl ⟨rfl, fun _ => rfl, ?_⟩, ?_⟩⟩
    all_goals
      intro k hk
      obtain ⟨o, ho, rfl⟩ := Option.map_eq_some_iff.mp hk
    · rfl
    · intro _
      simp [Message.id, Message.stage, Endpoint.ceiling, hfresh, hcr, hnone]
    · rfl
    · exact ⟨fun h => by simp [h, StreamIds.wasCreated] at hcr, (hr o ho).imp_right And.left⟩
  | data => exact ⟨_, _, .quiet rfl (.of_eq rfl) rfl rfl rfl rfl⟩
  | overflow reply hopen hstream ho hc hr =>
    exact ⟨_, _, .of_drop _ ha hopen hstream hr rfl rfl hopen rfl rfl rfl⟩
  | end_ hopen hstream hr =>
    exact ⟨_, _, .quiet rfl (.of_edit hstream rfl fun h => h) rfl rfl rfl rfl⟩
  | stop hopen hstream hc =>
    exact ⟨_, _, .of_drop none ha hopen hstream (by simp) rfl rfl hopen
      (by simp [Endpoint.drop]) rfl rfl⟩
  | ignored => exact ⟨_, _, .quiet rfl (.of_eq rfl) rfl rfl rfl rfl⟩
  | @goAway _ last code events hopen hlog =>
    refine ⟨_, none, .of_lowers rfl (fun i st' hst => ?_) (by simp; rfl) List.filter_sublist
      (fun h => h) (fun _ => opens_filter (fun k hk => by simp [hk]) _)
      (fun hc => absurd hc (by simp [hopen])) (by simp) rfl rfl⟩
    simp only at hst
    split at hst
    · cases hst
    · exact ⟨st', hst, fun h => h⟩
  | probe => exact ⟨_, _, .quiet rfl (.of_eq rfl) rfl rfl rfl rfl⟩
  | fatal hopen hc => exact ⟨_, _, .of_shut (by simp)⟩

theorem Endpoint.Local.settles (hb : b.Own) {b' : Endpoint} (h : Endpoint.Local b b') :
    Settles b b' := by
  cases h with
  | note | probe | send | drain => exact .of_sub rfl rfl rfl fun _ _ h => h
  | @open_ id ids context stream protocol hopen hsent hpeer hid hs =>
    obtain ⟨hn, hids⟩ := StreamIds.allocate_ok hid
    have hnext := StreamIds.following_eq_some hb.ids.local_parity (hb.ids.next_local ▸ hn)
    subst hids
    refine ⟨rfl, rfl, UInt32.le_of_lt hnext.2.1, rfl, fun {i st} hst hr => ?_, fun h => h⟩
    simp only [Endpoint.push, Endpoint.enroll, Function.update_apply] at hst
    split at hst
    · cases hst
      cases hr
    · exact ⟨st, hst, hr⟩
  | @end_ id st hopen hstream hl =>
    refine ⟨rfl, rfl, UInt32.le_refl _, rfl, fun {i new} hst hr => ?_, fun h => h⟩
    simp only [Function.update_apply] at hst
    split at hst
    case isTrue he =>
      cases hst
      exact ⟨st, he ▸ hstream, hr⟩
    case isFalse => exact ⟨new, hst, hr⟩
  | reported id =>
    refine ⟨rfl, rfl, UInt32.le_refl _, rfl, fun {i new} hst hr => ?_, fun h => h⟩
    simp only [Function.update_apply] at hst
    split at hst
    case isTrue he =>
      obtain ⟨old, hold, rfl⟩ := Option.map_eq_some_iff.mp hst
      exact ⟨old, he ▸ hold, hr⟩
    case isFalse => exact ⟨new, hst, hr⟩
  | completed => exact .of_sub rfl rfl rfl fun _ _ => update_none_sub
  | stop => exact .of_sub rfl rfl rfl fun _ _ => update_none_sub
  | close response hopen =>
    exact ⟨rfl, rfl, UInt32.le_refl _, rfl, fun h => by simp [Endpoint.shut] at h, fun _ => rfl⟩

end TalkSphere
