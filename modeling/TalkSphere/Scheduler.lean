import TalkSphere.SessionSteps

/-! The frame the output scheduler takes: the first of its stream, an OPEN only
when no OPEN is before it, and a GOAWAY only after every queued OPEN. -/

namespace TalkSphere

namespace Session

/-- The frame at `index + pre.length` may leave next. -/
structure Leads (firstOpen : Option Nat) (index : Nat) (pre : List WireFrame) (f : WireFrame) :
    Prop where
  first : ∀ g ∈ pre, g.header.streamId ≠ f.header.streamId
  opens : f.header.frameType = .open_ → firstOpen = some (index + pre.length)
  goes : f.header.frameType = .goAway → firstOpen.any (· < index + pre.length) = false

theorem mem_eligible {firstOpen : Option Nat} {frames : List WireFrame} {index : Nat}
    {seen : List UInt32} {id : UInt32} {i : Nat}
    (hi : (id, i) ∈ eligible firstOpen index seen frames) :
    id ∉ seen ∧ ∃ pre f post, frames = pre ++ f :: post ∧ i = index + pre.length ∧
      f.header.streamId = id ∧ Leads firstOpen index pre f := by
  induction frames generalizing index seen with
  | nil => simp [eligible] at hi
  | cons f rest ih =>
    have hskip : ∀ seen', (id, i) ∈ eligible firstOpen (index + 1) seen' rest →
        id ∉ seen' ∧ (id ≠ f.header.streamId → ∃ pre g post, f :: rest = pre ++ g :: post ∧
          i = index + pre.length ∧ g.header.streamId = id ∧ Leads firstOpen index pre g) := by
      intro seen' hi
      obtain ⟨hn, pre, g, post, hr, he, hg, hlead⟩ := ih hi
      refine ⟨hn, fun hne => ⟨f :: pre, g, post, by rw [hr]; rfl, by simp; omega, hg, ?_, ?_, ?_⟩⟩
      · rintro k (_ | ⟨_, hk⟩)
        · exact hg ▸ hne.symm
        · exact hlead.first k hk
      · simpa [Nat.add_assoc, Nat.add_comm 1] using hlead.opens
      · simpa [Nat.add_assoc, Nat.add_comm 1] using hlead.goes
    have hlater : (id, i) ∈ eligible firstOpen (index + 1) (f.header.streamId :: seen) rest → _ :=
      hskip (f.header.streamId :: seen)
    simp only [List.mem_cons, not_or] at hlater
    simp only [eligible] at hi
    split at hi
    case isTrue hm =>
      obtain ⟨hn, hlead⟩ := hskip seen hi
      exact ⟨hn, hlead fun he => hn (he ▸ hm)⟩
    case isFalse hm =>
    split at hi
    case isTrue => exact ⟨(hlater hi).1.2, (hlater hi).2 (hlater hi).1.1⟩
    case isFalse ho =>
    split at hi
    case isTrue => exact ⟨(hlater hi).1.2, (hlater hi).2 (hlater hi).1.1⟩
    case isFalse hg =>
    rcases List.mem_cons.mp hi with he | hi
    · obtain ⟨rfl, rfl⟩ := Prod.mk.inj he
      refine ⟨hm, [], f, rest, rfl, by simp, rfl, by simp, fun hk => ?_, fun hk => ?_⟩
      · simpa [hk] using ho
      · simpa [hk] using hg
    · exact ⟨(hlater hi).1.2, (hlater hi).2 (hlater hi).1.1⟩

theorem mem_of_minById {l : List (UInt32 × Nat)} {e : UInt32 × Nat} (h : minById l = some e) :
    e ∈ l := by
  induction l generalizing e with
  | nil => cases h
  | cons a l ih =>
    simp only [minById] at h
    split at h
    case h_1 =>
      cases h
      exact List.mem_cons_self
    case h_2 m hm =>
      split at h <;> cases h
      · exact List.mem_cons_of_mem _ (ih hm)
      · exact List.mem_cons_self

/-- Taking one message out of the queue, at a place the order of the wire allows. -/
structure Picks (queue : List Message) (m : Message) (rest : List Message) : Prop where
  split : ∃ pre post, queue = pre ++ m :: post ∧ rest = pre ++ post ∧
    (∀ k ∈ pre, k.id ≠ m.id) ∧
    (m.isOpen = true ∨ m.isGoAway = true → ∀ k ∈ pre, k.isOpen = false)

theorem message_isGoAway {f : WireFrame} (h : f.message.isGoAway = true) :
    f.header.frameType = .goAway := by
  unfold WireFrame.message at h
  cases ht : f.header.frameType <;> simp only [ht] at h <;> (try split at h) <;>
    (try split at h) <;> first | rfl | simp [Message.isGoAway] at h

theorem not_open_of_findIdx? {frames pre post : List WireFrame} {f : WireFrame}
    (hf : frames = pre ++ f :: post)
    (hn : ∀ i, frames.findIdx? (fun f => f.header.frameType == .open_) = some i → pre.length ≤ i) :
    ∀ g ∈ pre, g.message.isOpen = false := by
  intro g hg
  rw [g.message_isOpen]
  by_contra ho
  simp only [Bool.not_eq_false] at ho
  have hpre : ∃ i, pre.findIdx? (fun f => f.header.frameType == .open_) = some i := by
    rw [← Option.isSome_iff_exists, List.findIdx?_isSome]
    exact List.any_eq_true.mpr ⟨g, hg, ho⟩
  obtain ⟨i, hi⟩ := hpre
  have hlt := (List.findIdx?_eq_some_iff_getElem.mp hi).1
  have := hn i (by rw [hf, List.findIdx?_append, hi]; rfl)
  omega

theorem mem_of_choice {ready : List (UInt32 × Nat)} {keep : UInt32 × Nat → Bool} {e : UInt32 × Nat}
    (h : (minById (ready.filter keep)).or (minById ready) = some e) : e ∈ ready := by
  rw [Option.or_eq_some_iff] at h
  rcases h with h | ⟨-, h⟩
  · exact (List.mem_filter.mp (mem_of_minById h)).1
  · exact mem_of_minById h

theorem minById_eq_none {l : List (UInt32 × Nat)} : minById l = none ↔ l = [] := by
  cases l with
  | nil => simp [minById]
  | cons e l =>
    simp only [minById, reduceCtorEq, iff_false]
    split
    · simp
    · split <;> simp

theorem eligible_front (f : WireFrame) (rest : List WireFrame) :
    (f.header.streamId, 0) ∈
      eligible ((f :: rest).findIdx? fun f => f.header.frameType == .open_) 0 [] (f :: rest) := by
  have hopen : ¬ (f.header.frameType = .open_ ∧
      (f :: rest).findIdx? (fun f => f.header.frameType == .open_) ≠ some 0) := by
    rintro ⟨ht, hne⟩
    simp [List.findIdx?_cons, ht] at hne
  have hgo : ¬ (f.header.frameType = .goAway ∧
      ((f :: rest).findIdx? fun f => f.header.frameType == .open_).any (· < 0) = true) := by
    rintro ⟨-, hlt⟩
    simp at hlt
  rw [eligible]
  simp only [List.not_mem_nil, if_false, hopen, hgo]
  exact List.mem_cons_self

theorem nextOutput_eq_none (s : Session) : s.nextOutput.1 = none ↔ s.outbound = [] := by
  constructor
  · intro hn
    cases hq : s.outbound with
    | nil => rfl
    | cons f rest =>
      have hin := eligible_front f rest
      simp only [nextOutput, hq] at hn
      split at hn
      case h_1 hsel =>
        rw [Option.or_eq_none_iff, minById_eq_none, minById_eq_none] at hsel
        rw [hsel.2] at hin
        cases hin
      case h_2 id i hsel =>
        obtain ⟨-, pre, g, post, hf, hi, -⟩ := mem_eligible (mem_of_choice hsel)
        simp only [Nat.zero_add] at hi
        subst hi
        simp only [hf, List.getElem?_append_right (Nat.le_refl _), Nat.sub_self,
          List.getElem?_cons_zero, reduceCtorEq] at hn
  · intro hq
    simp [nextOutput, hq, eligible, minById]

theorem nextOutput_cases (s : Session) :
    s.nextOutput = (none, s) ∨
    ∃ f s', s.nextOutput = (some f, s') ∧
      (∃ last outbound, s' = { s with lastOutput := last, outbound }) ∧
      (∃ pre post, s.outbound = pre ++ f :: post ∧ s'.outbound = pre ++ post ∧
        Picks (s.outbound.map WireFrame.message) f.message (s'.outbound.map WireFrame.message)) := by
  simp only [nextOutput]
  generalize hfirst : s.outbound.findIdx? (fun f => f.header.frameType == .open_) = firstOpen
  split
  case h_1 => exact .inl rfl
  case h_2 id i hsel =>
    obtain ⟨-, pre, f, post, hf, hi, hid, hlead⟩ := mem_eligible (mem_of_choice hsel)
    have hopen := hlead.opens
    have hgo := hlead.goes
    simp only [Nat.zero_add] at hi hopen hgo
    subst hi
    have hget : s.outbound[pre.length]? = some f := by simp [hf]
    have herase : s.outbound.eraseIdx pre.length = pre ++ post := by
      rw [hf, List.eraseIdx_append_of_length_le le_rfl]
      simp
    refine .inr ⟨f, _, by rw [hget], ⟨_, _, rfl⟩, pre, post, hf, herase, ⟨?_⟩⟩
    refine ⟨pre.map WireFrame.message, post.map WireFrame.message, by simp [hf],
      by simp [herase], ?_, ?_⟩
    · intro k hk
      obtain ⟨g, hg, rfl⟩ := List.mem_map.mp hk
      rw [g.message_id, f.message_id]
      exact hlead.first g hg
    · intro hm k hk
      obtain ⟨g, hg, rfl⟩ := List.mem_map.mp hk
      refine not_open_of_findIdx? hf (fun j hj => ?_) g hg
      rw [hfirst] at hj
      rcases hm with hm | hm
      · rw [f.message_isOpen] at hm
        have := hopen (by simpa using hm)
        rw [hj] at this
        exact (Option.some.inj this).ge
      · have := hgo (message_isGoAway hm)
        simpa [hj] using this

theorem popOutbound_eq (s : Session) : ∃ last outbound,
    s.popOutbound.2 = { s with lastOutput := last, outbound } := by
  rcases nextOutput_cases s with hn | ⟨f, s', hn, ⟨last, outbound, rfl⟩, -⟩
  · exact ⟨s.lastOutput, s.outbound, by rw [popOutbound, hn]⟩
  · exact ⟨last, outbound, by rw [popOutbound, hn]⟩

end Session

end TalkSphere
