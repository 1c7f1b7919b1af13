import TalkSphere.Joint

/-! The bytes of one stream in one direction: accepted by the sender, on the way,
and emitted by the receiver. -/

namespace TalkSphere

open Relation (ReflTransGen)

def Event.bytes : Event → List UInt8
  | .data _ bytes => bytes
  | _ => []

def carried (i : UInt32) (l : List Message) : List UInt8 :=
  l.flatMap fun m => if m.id = i then m.bytes else []

def accepted (i : UInt32) (sends : List (UInt32 × List UInt8)) : List UInt8 :=
  sends.flatMap fun e => if e.1 = i then e.2 else []

def received (i : UInt32) (log : List Event) : List UInt8 := (trace i log).flatMap Event.bytes

theorem carried_append (i : UInt32) (l l' : List Message) :
    carried i (l ++ l') = carried i l ++ carried i l' := List.flatMap_append

theorem received_append (i : UInt32) (l l' : List Event) :
    received i (l ++ l') = received i l ++ received i l' := by
  simp [received, trace_append]

theorem carried_eq_nil {i : UInt32} {l : List Message} (h : ∀ m ∈ l, m.id = i → m.bytes = []) :
    carried i l = [] := by
  rw [carried, List.flatMap_eq_nil_iff]
  intro m hm
  split
  · exact h m hm (by assumption)
  · rfl

theorem carried_filter {i : UInt32} {p : Message → Bool} (hp : ∀ m, m.id = i → p m = true)
    (l : List Message) : carried i (l.filter p) = carried i l := by
  induction l with
  | nil => rfl
  | cons m l ih =>
    simp only [carried] at ih ⊢
    by_cases hm : p m = true
    · simp [hm, ih]
    · have hi : m.id ≠ i := fun h => hm (hp m h)
      simp [hm, hi, ih]

theorem mem_end_filter {i : UInt32} {p : Message → Bool} (hp : ∀ m, m.id = i → p m = true)
    (l : List Message) : .end_ i ∈ l.filter p ↔ .end_ i ∈ l := by
  simp [List.mem_filter, hp (.end_ i) rfl]

theorem carried_after_end {i : UInt32} (h0 : i ≠ 0) (l l' : List Message)
    (ho : (l ++ l').Pairwise fun m m' => m.id ≠ 0 → m.id = m'.id → m.Before m')
    (he : .end_ i ∈ l) : carried i l' = [] := by
  refine carried_eq_nil fun m hm hi => ?_
  have hb := (List.pairwise_append.mp ho).2.2 _ he m hm h0 hi.symm
  cases m with
  | data j bytes => simp [Message.Before, Message.stage] at hb
  | _ => rfl

/-- What a step of the sender does to the bytes of one stream. -/
inductive Carries (a a' : Endpoint) (i : UInt32) : Prop
  | same (hs : accepted i a'.sends = accepted i a.sends)
      (hq : carried i a'.queue = carried i a.queue) (he : .end_ i ∈ a'.queue ↔ .end_ i ∈ a.queue)
      (hst : (a'.streams i).map StreamState.localOpen = (a.streams i).map StreamState.localOpen)
  | sends {st : StreamState} {bytes : List UInt8} (hst : a.streams i = some st)
      (hl : st.localOpen = true) (hst' : a'.streams i = some st)
      (hs : accepted i a'.sends = accepted i a.sends ++ bytes)
      (hq : carried i a'.queue = carried i a.queue ++ bytes)
      (he : .end_ i ∈ a'.queue ↔ .end_ i ∈ a.queue)
  | ends {st : StreamState} (hst : a.streams i = some st)
      (hst' : a'.streams i = some { st with localOpen := false })
      (hs : accepted i a'.sends = accepted i a.sends)
      (hq : carried i a'.queue = carried i a.queue) (he : .end_ i ∈ a'.queue)
  | completes {st : StreamState} (hst : a.streams i = some st) (hl : st.localOpen = false)
      (hst' : a'.streams i = none) (hs : accepted i a'.sends = accepted i a.sends)
      (hq : carried i a'.queue = carried i a.queue) (he : .end_ i ∈ a'.queue ↔ .end_ i ∈ a.queue)
  | leaves (hst' : a'.streams i = none) (hs : accepted i a'.sends = accepted i a.sends)
      (hq : carried i a'.queue = []) (he : .end_ i ∉ a'.queue)
  | starts (hfresh : a.ids.wasCreated i = false)
      (hst' : ∀ st, a'.streams i = some st → st.localOpen = true)
      (hs : accepted i a'.sends = accepted i a.sends)
      (hq : carried i a'.queue = carried i a.queue) (he : .end_ i ∈ a'.queue ↔ .end_ i ∈ a.queue)

variable {a a' b b' : Endpoint} {m : Message} {i : UInt32} {channel : List Message}

theorem Carries.of_push (hs : a'.sends = a.sends) (hq : a'.queue = a.queue ++ [m])
    (hb : m.bytes = []) (he : m ≠ .end_ i)
    (hst : (a'.streams i).map StreamState.localOpen = (a.streams i).map StreamState.localOpen) :
    Carries a a' i := by
  refine .same (by rw [hs]) ?_ ?_ hst
  · rw [hq, carried_append, carried_eq_nil (l := [m]) (by simpa using fun _ => hb), List.append_nil]
  · rw [hq, List.mem_append, List.mem_singleton]
    exact or_iff_left fun h => he h.symm

theorem Carries.quiet (hs : a'.sends = a.sends) (hq : a'.queue = a.queue)
    (hst : (a'.streams i).map StreamState.localOpen = (a.streams i).map StreamState.localOpen) :
    Carries a a' i :=
  .same (by rw [hs]) (by rw [hq]) (by rw [hq]) hst

theorem Carries.of_drop {id : UInt32} (reply : Option StreamOutcome) (hs : a'.sends = a.sends)
    (hq : a'.queue = Endpoint.purge id a.queue ++ reply.toList.map (.stop id))
    (hst : a'.streams = Function.update a.streams id none) : Carries a a' i := by
  have hreply : ∀ k ∈ reply.toList.map (Message.stop id), k.bytes = [] ∧ k ≠ .end_ i := by
    intro k hk
    obtain ⟨o, -, rfl⟩ := List.mem_map.mp hk
    exact ⟨rfl, nofun⟩
  have hnil := carried_eq_nil (i := i) (l := reply.toList.map (Message.stop id))
    fun k hk _ => (hreply k hk).1
  by_cases hi : i = id
  · subst hi
    refine .leaves (by rw [hst, Function.update_self]) (by rw [hs]) ?_ ?_
    · rw [hq, carried_append, hnil, List.append_nil]
      refine carried_eq_nil fun k hk he => ?_
      have := (List.mem_filter.mp hk).2
      cases k <;> first | rfl | simp_all [Message.isOpen]
    · rw [hq, List.mem_append]
      rintro (hm | hm)
      · simpa [Message.id, Message.isOpen] using (List.mem_filter.mp hm).2
      · exact (hreply _ hm).2 rfl
  · have hp : ∀ k : Message, k.id = i → (k.id != id || k.isOpen) = true := by
      intro k hk
      simp [hk, hi]
    refine .same (by rw [hs]) ?_ ?_ (by rw [hst, Function.update_of_ne hi])
    · rw [hq, carried_append, hnil, List.append_nil]
      exact carried_filter hp _
    · rw [hq, List.mem_append]
      rw [or_iff_left fun hm => (hreply _ hm).2 rfl]
      exact mem_end_filter hp _

theorem Carries.of_shut (events : List Event) (response : Option ErrorCode) :
    Carries a (a.shut events response) i := by
  refine .leaves rfl rfl (carried_eq_nil fun k hk _ => ?_) fun hm => ?_
  · obtain ⟨c, -, rfl⟩ := List.mem_map.mp hk
    rfl
  · obtain ⟨c, -, hc⟩ := List.mem_map.mp hm
    cases hc

theorem accepted_concat (i j : UInt32) (sends : List (UInt32 × List UInt8)) (bytes : List UInt8) :
    accepted i (sends ++ [(j, bytes)]) = accepted i sends ++ if j = i then bytes else [] := by
  simp [accepted]

theorem Endpoint.Local.carries (ha : a.Own) (h : Endpoint.Local a a') : Carries a a' i := by
  cases h with
  | note => exact .quiet rfl rfl rfl
  | probe => exact .of_push rfl rfl rfl (by rintro ⟨⟩) rfl
  | @open_ id ids context stream protocol hopen hsent hpeer hid hs =>
    by_cases hi : i = id
    · subst hi
      refine .starts (StreamIds.allocate_fresh ha.ids hid) (fun st hst => ?_) rfl ?_ ?_
      · simp only [push, enroll, Function.update_self, Option.some.injEq] at hst
        rw [← hst]
      · exact (carried_append ..).trans (by simp [carried, Message.bytes, enroll])
      · simp [push, enroll]
    · refine .of_push rfl rfl rfl (by rintro ⟨⟩) ?_
      simp [push, enroll, Function.update_of_ne hi]
  | @send id st bytes hopen hstream hl hb =>
    by_cases hi : id = i
    · subst hi
      have hacc : accepted id (a.sends ++ [(id, bytes)]) = accepted id a.sends ++ bytes :=
        (accepted_concat ..).trans (by rw [if_pos rfl])
      refine .sends hstream hl hstream hacc ?_ ?_
      · exact (carried_append ..).trans (by simp [carried, Message.id, Message.bytes])
      · simp [push]
    · refine .same ?_ ?_ (by simp [push]) rfl
      · exact (accepted_concat ..).trans (by rw [if_neg hi, List.append_nil])
      · exact (carried_append ..).trans (by simp [carried, Message.id, hi])
  | @end_ id st hopen hstream hl =>
    by_cases hi : id = i
    · subst hi
      refine .ends hstream (Function.update_self ..) rfl ?_ (by simp [push])
      exact (carried_append ..).trans (by simp [carried, Message.bytes])
    · refine .of_push rfl rfl rfl (fun h => hi (Message.end_.inj h)) ?_
      simp [Function.update_of_ne (Ne.symm hi)]
  | reported id =>
    refine .quiet rfl rfl ?_
    by_cases hi : i = id
    · subst hi
      simp [Function.comp_def]
    · simp [hi]
  | @completed id st hopen hstream hr hw =>
    by_cases hi : id = i
    · subst hi
      exact .completes hstream (ha.written hstream hw).1 (Function.update_self ..) rfl rfl .rfl
    · exact .quiet rfl rfl (by simp [Function.update_of_ne (Ne.symm hi)])
  | stop => exact .of_drop _ rfl rfl rfl
  | drain => exact .of_push rfl rfl rfl (by rintro ⟨⟩) rfl
  | close response => exact .of_shut _ _

theorem Endpoint.Consume.carries (ha : a.Own) (h : Endpoint.Consume m a a') : Carries a a' i := by
  cases h with
  | @admitted _ id ids context stream protocol hopen hsent hpeer hid hs =>
    by_cases hi : i = id
    · subst hi
      refine .starts (StreamIds.accept_fresh ha.ids hid) (fun st hst => ?_) rfl rfl .rfl
      simp only [enroll, Function.update_self, Option.some.injEq] at hst
      rw [← hst]
    · exact .quiet rfl rfl (by simp [enroll, Function.update_of_ne hi])
  | @refused _ id ids reply =>
    cases reply with
    | none => exact .quiet rfl (by simp) rfl
    | some o => exact .of_push (m := .stop id o) rfl (by simp) rfl (by rintro ⟨⟩) rfl
  | data => exact .quiet rfl rfl rfl
  | overflow => exact .of_drop _ rfl rfl rfl
  | @end_ _ id st hopen hstream hr =>
    refine .quiet rfl rfl ?_
    by_cases hi : i = id
    · subst hi
      simp [hstream]
    · simp [hi]
  | stop => exact .of_drop none rfl (by simp [drop]) rfl
  | ignored => exact .quiet rfl rfl rfl
  | @goAway _ last code events hopen hlog hevents =>
    by_cases hi : (a.streams i).isSome = true ∧ a.ids.isLocal i = true ∧ last < i
    · refine .leaves (by simp [hi.2]) rfl (carried_eq_nil fun k hk he => ?_) fun hm => ?_
      · have := (List.mem_filter.mp hk).2
        simp only [he, hi.1, hi.2.1, hi.2.2, decide_true, Bool.and_self, Bool.not_true,
          Bool.false_or] at this
        cases k <;> first | rfl | cases this
      · have := (List.mem_filter.mp hm).2
        simp [Message.id, Message.isOpen, hi.1, hi.2.1, hi.2.2] at this
    · have hp : ∀ k : Message, k.id = i →
          (!((a.streams k.id).isSome && a.ids.isLocal k.id && decide (last < k.id)) ||
            k.isOpen) = true := by
        intro k hk
        rw [hk, Bool.or_eq_true]
        left
        simpa only [Bool.not_eq_true', Bool.and_eq_false_iff, decide_eq_false_iff_not, not_and_or,
          Bool.not_eq_true, or_assoc] using hi
      refine .same rfl (carried_filter hp _) (mem_end_filter hp _) ?_
      by_cases hl : a.ids.isLocal i = true ∧ last < i
      · have hnone : a.streams i = none := by
          cases hst : a.streams i with
          | none => rfl
          | some st => exact absurd ⟨by simp [hst], hl⟩ hi
        simp [hnone]
      · simp [hl]
  | probe => exact .quiet rfl rfl rfl
  | fatal => exact .of_shut _ _

def Endpoint.Hears (b : Endpoint) (i : UInt32) : Prop :=
  b.ids.wasCreated i = false ∨ ∃ st, b.streams i = some st ∧ st.remoteOpen = true

structure Delivery (a : Endpoint) (channel : List Message) (b : Endpoint) (i : UInt32) : Prop where
  received_le : received i b.log <+: accepted i a.sends
  idle : a.ids.wasCreated i = false → accepted i a.sends = []
  flow : b.closed = false → b.Hears i →
    received i b.log ++ carried i (way a channel) <+: accepted i a.sends ∧
    ((a.streams i).isSome ∨ .end_ i ∈ way a channel →
      received i b.log ++ carried i (way a channel) = accepted i a.sends)
  ending : b.closed = false → b.Hears i → ∀ st, a.streams i = some st → st.localOpen = false →
    .end_ i ∈ way a channel
  finished : (∃ stream, .remoteEnd stream ∈ trace i b.log) →
    received i b.log = accepted i a.sends ∧ a.ids.wasCreated i = true ∧
      ∀ st, a.streams i = some st → st.localOpen = false

theorem carried_way (a : Endpoint) (channel : List Message) (i : UInt32) :
    carried i (way a channel) = carried i channel ++ carried i a.queue := carried_append ..

theorem Flow.carried_fresh (hf : Flow a channel b) (hc : a.ids.wasCreated i = false) :
    carried i (way a channel) = [] := by
  refine carried_eq_nil fun k hk hi => ?_
  cases k with
  | data j bytes =>
    have h0 : j ≠ 0 := hf.honest _ hk
    have hlt := hf.below _ hk h0
    have : a.ids.wasCreated j = true := Endpoint.ceiling_pos hlt
    rw [show j = i from hi, hc] at this
    cases this
  | _ => rfl

theorem Flow.end_ne_zero (hf : Flow a channel b) (he : .end_ i ∈ way a channel) : i ≠ 0 :=
  hf.honest _ he

namespace Delivery

theorem sends (hd : Delivery a channel b i) (hf : b.closed = false → Flow a channel b)
    (hcr : a.ids.wasCreated i = true → a'.ids.wasCreated i = true) (ha : a.Own)
    (hcar : Carries a a' i) : Delivery a' channel b i := by
  have hfresh : a'.ids.wasCreated i = false → a.ids.wasCreated i = false := by
    intro h
    by_contra hc
    rw [hcr (by simpa using hc)] at h
    cases h
  have hend : ∀ {e : Endpoint}, .end_ i ∈ way e channel ↔ .end_ i ∈ channel ∨ .end_ i ∈ e.queue :=
    List.mem_append
  cases hcar with
  | same hs hq he hst =>
    have hsome : (a'.streams i).isSome = (a.streams i).isSome := by
      simpa using congrArg Option.isSome hst
    have hw : .end_ i ∈ way a' channel ↔ .end_ i ∈ way a channel := by rw [hend, hend, he]
    have hlo : ∀ st, a'.streams i = some st → st.localOpen = false →
        ∃ old, a.streams i = some old ∧ old.localOpen = false := by
      intro st hi hl
      rw [hi, Option.map_some, hl] at hst
      exact (Option.map_eq_some_iff.mp hst.symm)
    refine ⟨hs ▸ hd.received_le, fun h => hs ▸ hd.idle (hfresh h), ?_, ?_, fun h => ?_⟩
    · rw [hs, hsome, hw, carried_way, hq, ← carried_way]
      exact hd.flow
    · intro ho hh st hi hl
      obtain ⟨old, hold, hl'⟩ := hlo st hi hl
      exact hw.mpr (hd.ending ho hh old hold hl')
    · obtain ⟨h1, h2, h3⟩ := hd.finished h
      refine ⟨hs ▸ h1, hcr h2, fun st hi => ?_⟩
      rw [hi, Option.map_some] at hst
      obtain ⟨old, hold, hl⟩ := Option.map_eq_some_iff.mp hst.symm
      rw [← hl]
      exact h3 old hold
  | @sends st bytes hst hl hst' hs hq he =>
    have hsome : (a.streams i).isSome := by simp [hst]
    refine ⟨hs ▸ hd.received_le.trans (List.prefix_append _ _),
      fun h => absurd (ha.created hst) (by simp [hfresh h]), fun ho hh => ?_, fun ho hh st' hi hl' => ?_,
      fun h => ?_⟩
    · have heq := (hd.flow ho hh).2 (.inl hsome)
      have hnew : received i b.log ++ carried i (way a' channel) = accepted i a'.sends := by
        rw [carried_way, hq, hs, ← heq, carried_way]
        simp
      exact ⟨hnew ▸ List.prefix_rfl, fun _ => hnew⟩
    · rw [hst'] at hi
      cases hi
      rw [hl] at hl'
      cases hl'
    · exact absurd ((hd.finished h).2.2 st hst) (by simp [hl])
  | @ends st hst hst' hs hq he =>
    have hsome : (a.streams i).isSome := by simp [hst]
    refine ⟨hs ▸ hd.received_le, fun h => hs ▸ hd.idle (hfresh h), fun ho hh => ?_,
      fun _ _ _ _ _ => hend.mpr (.inr he), fun h => ?_⟩
    · have heq := (hd.flow ho hh).2 (.inl hsome)
      rw [carried_way, hq, hs, ← carried_way, heq]
      exact ⟨List.prefix_rfl, fun _ => rfl⟩
    · obtain ⟨h1, h2, h3⟩ := hd.finished h
      refine ⟨hs ▸ h1, hcr h2, fun st' hi => ?_⟩
      rw [hst'] at hi
      cases hi
      rfl
  | @completes st hst hl hst' hs hq he =>
    have hw : .end_ i ∈ way a' channel ↔ .end_ i ∈ way a channel := by rw [hend, hend, he]
    refine ⟨hs ▸ hd.received_le, fun h => hs ▸ hd.idle (hfresh h), fun ho hh => ?_,
      fun _ _ st' hi => (by rw [hst'] at hi; cases hi), fun h => ?_⟩
    · rw [carried_way, hq, hs, ← carried_way]
      exact ⟨(hd.flow ho hh).1, fun _ => (hd.flow ho hh).2 (.inl (by simp [hst]))⟩
    · obtain ⟨h1, h2, h3⟩ := hd.finished h
      exact ⟨hs ▸ h1, hcr h2, fun st' hi => by rw [hst'] at hi; cases hi⟩
  | leaves hst' hs hq he =>
    refine ⟨hs ▸ hd.received_le, fun h => hs ▸ hd.idle (hfresh h), fun ho hh => ?_,
      fun _ _ st' hi => (by rw [hst'] at hi; cases hi), fun h => ?_⟩
    · obtain ⟨hle, heq⟩ := hd.flow ho hh
      rw [carried_way] at hle heq
      rw [carried_way, hq, hs, List.append_nil]
      refine ⟨(List.prefix_append _ _).trans (by rwa [List.append_assoc]), fun hor => ?_⟩
      rcases hor with hsome | hin
      · simp [hst'] at hsome
      · have hch : .end_ i ∈ channel := (hend.mp hin).resolve_right he
        have hold : .end_ i ∈ way a channel := hend.mpr (.inl hch)
        have hnil := carried_after_end ((hf ho).end_ne_zero hold) _ _ (hf ho).order hch
        have := heq (.inr hold)
        rwa [hnil, List.append_nil] at this
    · obtain ⟨h1, h2, h3⟩ := hd.finished h
      exact ⟨hs ▸ h1, hcr h2, fun st' hi => by rw [hst'] at hi; cases hi⟩
  | starts hnew hst' hs hq he =>
    have hnil := hd.idle hnew
    have hrec : received i b.log = [] := by
      have := hd.received_le
      rw [hnil] at this
      exact List.prefix_nil.mp this
    refine ⟨hs ▸ hd.received_le, fun _ => hs ▸ hnil, fun ho hh => ?_, fun _ _ st hi hl => ?_,
      fun h => ?_⟩
    · have hc := (hf ho).carried_fresh hnew
      rw [carried_way, hq, hs, ← carried_way, hc, hrec, hnil]
      exact ⟨List.prefix_rfl, fun _ => rfl⟩
    · rw [hst' st hi] at hl
      cases hl
    · exact absurd (hd.finished h).2.1 (by simp [hnew])

end Delivery

end TalkSphere
