import TalkSphere.Link

/-! The events of one session over a whole run, whatever its peer sends. -/

namespace TalkSphere

open Std (TreeMap)
open Relation (ReflTransGen)

namespace Endpoint

variable {e e' : Endpoint} {i : UInt32}

def Active (st : StreamState) (l : List Event) : Prop :=
  ∃ context protocol data, (∀ ev ∈ data, ∃ bytes, ev = .data st.handle bytes) ∧
    l = .streamOpened context st.handle protocol ::
      (data ++ if st.remoteOpen then [] else [.remoteEnd st.handle])

def Ended (reported : Prop) (l : List Event) : Prop :=
  ∃ context stream protocol data ended outcome,
    (∀ ev ∈ data, ∃ bytes, ev = .data stream bytes) ∧
    (ended = [] ∨ ended = [.remoteEnd stream]) ∧
    (outcome = .completed → ended = [.remoteEnd stream] ∧ reported) ∧
    l = .streamOpened context stream protocol :: (data ++ ended ++ [.streamClosed stream outcome])

def Lives (e : Endpoint) (i : UInt32) : Prop :=
  match e.streams i with
  | some st => Active st (trace i e.log)
  | none => trace i e.log = [] ∨
      (e.ids.wasCreated i = true ∧ Ended (i ∈ e.reports) (trace i e.log))

theorem Local.grows (ho : Own e) (h : Local e e') : (∃ events, e'.log = e.log ++ events) ∧
    e.reports ⊆ e'.reports ∧ (e.ids.wasCreated i = true → e'.ids.wasCreated i = true) := by
  cases h with
  | open_ context stream protocol hopen hsent hpeer hid hs =>
    exact ⟨⟨_, rfl⟩, List.Subset.refl _,
      fun hc => (StreamIds.wasCreated_allocate ho.ids hid i).mpr (.inl hc)⟩
  | reported id => exact ⟨⟨[], by simp⟩, List.subset_append_left _ _, fun h => h⟩
  | note events | completed | stop | close => exact ⟨⟨_, rfl⟩, List.Subset.refl _, fun h => h⟩
  | probe | send | end_ | drain =>
    exact ⟨⟨[], (List.append_nil _).symm⟩, List.Subset.refl _, fun h => h⟩

theorem Consume.grows {m : Message} (ho : Own e) (h : Consume m e e') :
    (∃ events, e'.log = e.log ++ events) ∧ e.reports ⊆ e'.reports ∧
      (e.ids.wasCreated i = true → e'.ids.wasCreated i = true) := by
  cases h with
  | admitted context stream protocol hopen hsent hpeer hid hs =>
    exact ⟨⟨_, rfl⟩, List.Subset.refl _,
      fun hc => (StreamIds.wasCreated_accept ho.ids hid i).mpr (.inl hc)⟩
  | refused reply hopen hid =>
    exact ⟨⟨[], (List.append_nil _).symm⟩, List.Subset.refl _,
      fun hc => (StreamIds.wasCreated_accept ho.ids hid i).mpr (.inl hc)⟩
  | data | overflow | end_ | stop | goAway | fatal =>
    exact ⟨⟨_, rfl⟩, List.Subset.refl _, fun h => h⟩
  | ignored | probe => exact ⟨⟨[], (List.append_nil _).symm⟩, List.Subset.refl _, fun h => h⟩

theorem Free.grows (ho : Own e) (h : Free e e') : (∃ events, e'.log = e.log ++ events) ∧
    e.reports ⊆ e'.reports ∧ (e.ids.wasCreated i = true → e'.ids.wasCreated i = true) := by
  cases h with
  | own h => exact h.grows ho
  | read h => exact h.grows ho
  | forced h =>
    cases h with
    | fail | close => exact ⟨⟨_, rfl⟩, List.Subset.refl _, fun h => h⟩
  | popped queue => exact ⟨⟨[], (List.append_nil _).symm⟩, List.Subset.refl _, fun h => h⟩

theorem Active.data {st : StreamState} {l : List Event} (h : Active st l)
    (hr : st.remoteOpen = true) (bytes : List UInt8) :
    Active st (l ++ [.data st.handle bytes]) := by
  obtain ⟨context, protocol, data, hd, rfl⟩ := h
  refine ⟨context, protocol, data ++ [.data st.handle bytes], ?_, by simp [hr]⟩
  intro ev hev
  rcases List.mem_append.mp hev with hev | hev
  · exact hd ev hev
  · exact ⟨bytes, by simpa using hev⟩

theorem Active.ended {st : StreamState} {l : List Event} (h : Active st l)
    (hr : st.remoteOpen = true) :
    Active { st with remoteOpen := false } (l ++ [.remoteEnd st.handle]) := by
  obtain ⟨context, protocol, data, hd, rfl⟩ := h
  exact ⟨context, protocol, data, hd, by simp [hr]⟩

theorem Active.closed {st : StreamState} {l : List Event} (h : Active st l) {reported : Prop}
    {outcome : StreamOutcome}
    (hc : outcome = .completed → st.remoteOpen = false ∧ reported) :
    Ended reported (l ++ [.streamClosed st.handle outcome]) := by
  obtain ⟨context, protocol, data, hd, rfl⟩ := h
  refine ⟨context, st.handle, protocol, data, if st.remoteOpen then [] else [.remoteEnd st.handle],
    outcome, hd, ?_, ?_, by simp⟩
  · cases st.remoteOpen <;> simp
  · intro ho
    obtain ⟨hr, hrep⟩ := hc ho
    simp [hr, hrep]

theorem Active.congr {st st' : StreamState} {l : List Event} (h : Active st l)
    (hh : st'.handle = st.handle) (hr : st'.remoteOpen = st.remoteOpen) : Active st' l := by
  unfold Active at h ⊢
  rw [hh, hr]
  exact h

theorem Lives.step (ho : Own e) (hl : e.Lives i) (h : Free e e') : e'.Lives i := by
  obtain ⟨-, hrep, hcr⟩ := h.grows (i := i) ho
  have hchange : Change e e' i := ho.change h
  unfold Lives at hl ⊢
  cases hchange with
  | same hs ht =>
    rw [ht]
    cases hst : e.streams i with
    | none =>
      rw [hst, Option.map_none, Option.map_eq_none_iff] at hs
      rw [hst] at hl
      rw [hs]
      refine hl.imp_right fun ⟨hc, context, stream, protocol, data, ended, o, hd, he, hcomp, hlog⟩ =>
        ⟨hcr hc, context, stream, protocol, data, ended, o, hd, he, fun h => ?_, hlog⟩
      exact ⟨(hcomp h).1, hrep (hcomp h).2⟩
    | some st =>
      rw [hst, Option.map_some, Option.map_eq_some_iff] at hs
      obtain ⟨st', hst', heq⟩ := hs
      simp only [Prod.mk.injEq] at heq
      rw [hst] at hl
      rw [hst']
      exact hl.congr heq.1 heq.2
  | opened hfresh hs ht =>
    have hnone : e.streams i = none := by
      cases hst : e.streams i with
      | none => rfl
      | some st => exact absurd (ho.created hst) (by simp [hfresh])
    rw [hnone] at hl
    have hnil : trace i e.log = [] := by
      rcases hl with hl | hl
      · exact hl
      · exact absurd hl.1 (by simp [hfresh])
    rw [hs, ht, hnil]
    exact ⟨_, _, [], by simp, rfl⟩
  | data hst hr hs ht =>
    rw [hst] at hl
    rw [hs, ht]
    exact hl.data hr _
  | ended hst hr hs ht =>
    rw [hst] at hl
    rw [hs, ht]
    exact hl.ended hr
  | closed hst hs ht hc =>
    rw [hst] at hl
    rw [hs, ht]
    refine .inr ⟨hcr (ho.created hst), hl.closed fun h => ⟨(hc h).1, hrep ?_⟩⟩
    exact (ho.written hst (hc h).2).2

theorem Lives.completed (hl : e.Lives i) {stream : StreamHandle}
    (hc : .streamClosed stream .completed ∈ trace i e.log) :
    .remoteEnd stream ∈ trace i e.log ∧ i ∈ e.reports := by
  unfold Lives at hl
  split at hl
  case h_1 st hst =>
    obtain ⟨context, protocol, data, hd, hlog⟩ := hl
    rw [hlog] at hc
    rcases List.mem_cons.mp hc with hc | hc
    · cases hc
    · rcases List.mem_append.mp hc with hc | hc
      · obtain ⟨bytes, he⟩ := hd _ hc
        cases he
      · split at hc <;> simp at hc
  case h_2 =>
    rcases hl with hl | ⟨-, context, st, protocol, data, ended, o, hd, he, hcomp, hlog⟩
    · rw [hl] at hc
      cases hc
    · rw [hlog] at hc ⊢
      rcases List.mem_cons.mp hc with hc | hc
      · cases hc
      · rcases List.mem_append.mp hc with hc | hc
        · rcases List.mem_append.mp hc with hc | hc
          · obtain ⟨bytes, he⟩ := hd _ hc
            cases he
          · rcases he with he | he <;> simp [he] at hc
        · simp only [List.mem_singleton, Event.streamClosed.injEq] at hc
          obtain ⟨rfl, rfl⟩ := hc
          obtain ⟨hend, hrep⟩ := hcomp rfl
          exact ⟨by simp [hend], hrep⟩

end Endpoint

end TalkSphere
