import TalkSphere.FlowSteps

/-! Two honest endpoints and the two channels between them. -/

namespace TalkSphere

open Relation (ReflTransGen)

variable {a a' b : Endpoint} {m : Message} {out inc : List Message}

namespace Endpoint

theorem Closing.outcome {failure : Failure} {events : List Event} (hc : Closing a failure events)
    {stream : StreamHandle} {outcome : StreamOutcome}
    (h : .streamClosed stream outcome ∈ events) : outcome = .failed failure := by
  have ht : .streamClosed stream outcome ∈ trace stream.wireId events :=
    List.mem_filter.mpr ⟨h, by simp [onStream, Event.stream?]⟩
  rw [hc.onStreams] at ht
  cases hst : a.streams stream.wireId with
  | none => simp [hst] at ht
  | some st =>
    simp only [hst, Option.map_some, Option.toList_some, List.mem_singleton,
      Event.streamClosed.injEq] at ht
    exact ht.2

theorem Local.outcome (h : Local a a') {stream : StreamHandle} {outcome : StreamOutcome}
    (hl : .streamClosed stream outcome ∈ a'.log) :
    .streamClosed stream outcome ∈ a.log ∨ outcome.Plain := by
  cases h with
  | note events hopen hping =>
    refine (List.mem_append.mp hl).imp_right fun hin => ?_
    obtain ⟨c, t, r, he⟩ := hping _ hin
    cases he
  | open_ =>
    simp only [push, enroll, List.mem_append, List.mem_singleton, reduceCtorEq, or_false] at hl
    exact .inl hl
  | completed =>
    simp only [List.mem_append, List.mem_singleton, Event.streamClosed.injEq] at hl
    refine hl.imp_right fun he => ?_
    rw [he.2]
    trivial
  | stop reply hopen hstream ho =>
    simp only [drop, List.mem_append, List.mem_singleton, Event.streamClosed.injEq] at hl
    refine hl.imp_right fun he => ?_
    rw [he.2]
    exact ho
  | close response hopen hc hf =>
    refine (List.mem_append.mp hl).imp_right fun hin => ?_
    rw [hc.outcome hin]
    exact hf
  | probe | send | end_ | reported | drain => exact .inl hl

def Refusal (a : Endpoint) (m : Message) (i : UInt32) : Prop :=
  (∃ last code, m = .goAway last code ∧ a.ids.isLocal i = true ∧ last < i) ∨
    m = .stop i (.failed ⟨.peer, .refused⟩)

theorem Consume.outcome (ha : a.Own) (h : Consume m a a') (hm : m.Honest) {stream : StreamHandle}
    {outcome : StreamOutcome} (hl : .streamClosed stream outcome ∈ a'.log) :
    .streamClosed stream outcome ∈ a.log ∨ outcome.Plain ∨
      (outcome = .failed ⟨.peer, .refused⟩ ∧ Refusal a m stream.wireId) := by
  cases h with
  | admitted =>
    simp only [enroll, List.mem_append, List.mem_singleton, reduceCtorEq, or_false] at hl
    exact .inl hl
  | data =>
    simp only [List.mem_append, List.mem_singleton, reduceCtorEq, or_false] at hl
    exact .inl hl
  | end_ =>
    simp only [List.mem_append, List.mem_singleton, reduceCtorEq, or_false] at hl
    exact .inl hl
  | overflow reply hopen hstream ho =>
    simp only [drop, List.mem_append, List.mem_singleton, Event.streamClosed.injEq] at hl
    refine hl.imp_right fun he => .inl ?_
    rw [he.2]
    exact ho
  | @stop _ id st o hopen hstream hc =>
    simp only [drop, List.mem_append, List.mem_singleton, Event.streamClosed.injEq] at hl
    rcases hl with hl | ⟨hs, rfl⟩
    · exact .inl hl
    · refine .inr (hm.2.imp_right fun ho => ⟨ho, .inr ?_⟩)
      rw [hs, ha.keyed hstream, ho]
  | @goAway _ last code events hopen hlog hevents =>
    refine (List.mem_append.mp hl).imp_right fun hin => .inr ?_
    have ht : .streamClosed stream outcome ∈ trace stream.wireId events :=
      List.mem_filter.mpr ⟨hin, by simp [onStream, Event.stream?]⟩
    rw [hlog] at ht
    split at ht
    case isFalse => cases ht
    case isTrue hi =>
      cases hst : a.streams stream.wireId with
      | none => simp [hst] at ht
      | some st =>
        simp only [hst, Option.map_some, Option.toList_some, List.mem_singleton,
          Event.streamClosed.injEq] at ht
        exact ⟨ht.2, .inl ⟨last, code, rfl, hi⟩⟩
  | @fatal _ code events hopen hc =>
    refine (List.mem_append.mp hl).imp_right fun hin => .inl ?_
    rw [hc.outcome hin]
    have hne : code ≠ .refusedStream ∧ code ≠ .streamStateError := hm
    constructor <;> cases code <;> simp_all [failureCode]
  | refused | ignored | probe => exact .inl hl

def Clean (e : Endpoint) : Prop :=
  ∀ stream f, .streamClosed stream (.failed f) ∈ e.log → f.code ≠ .streamState

end Endpoint

structure Joint (a : Endpoint) (out inc : List Message) (b : Endpoint) : Prop where
  own : a.Own
  peer_own : b.Own
  there : Direction a out b
  back : Direction b inc a
  clean : a.Clean
  peer_clean : b.Clean

namespace Joint

theorem symm (h : Joint a out inc b) : Joint b inc out a :=
  ⟨h.peer_own, h.own, h.back, h.there, h.peer_clean, h.clean⟩

theorem local_ (h : Joint a out inc b) (hs : Endpoint.Local a a') : Joint a' out inc b := by
  obtain ⟨kept, added, hsends⟩ := hs.sends h.own
  have hset := hs.settles h.own
  have hback := h.back.settles hset
  refine ⟨h.own.local_ hs, h.peer_own, h.there.sends hsends h.own h.peer_own hback.remote_le,
    hback, ?_, h.peer_clean⟩
  intro stream f hf
  rcases hs.outcome hf with hf | hp
  · exact h.clean stream f hf
  · exact hp.2

theorem legal (h : Joint a out (m :: inc) b) (hopen : a.closed = false) : ¬ a.Illegal m :=
  h.back.legal h.there h.peer_own h.own hopen

theorem consume (h : Joint a out (m :: inc) b) (hopen : a.closed = false)
    (hc : Endpoint.Consume m a a') : Joint a' out inc b := by
  have hm := (h.back.live hopen).honest m List.mem_cons_self
  obtain ⟨kept, added, hsends⟩ := hc.sends h.own
  have hback := h.back.consume h.own hc hopen
  refine ⟨h.own.consume hc, h.peer_own, h.there.sends hsends h.own h.peer_own hback.remote_le,
    hback, ?_, h.peer_clean⟩
  intro stream f hf
  rcases hc.outcome h.own hm hf with hf | hp | ⟨he, -⟩
  · exact h.clean stream f hf
  · exact hp.2
  · rw [(StreamOutcome.failed.inj he)]
    decide

theorem emit {rest : List Message} (h : Joint a out inc b) (hp : Session.Picks a.queue m rest) :
    Joint { a with queue := rest } (out ++ [m]) inc b :=
  ⟨h.own.of_same rfl rfl rfl rfl rfl, h.peer_own, h.there.emit hp,
    h.back.settles (.of_sub rfl rfl rfl fun _ _ h => h), h.clean, h.peer_clean⟩

theorem lose (h : Joint a out (m :: inc) b) (hc : a.closed = true) : Joint a out inc b :=
  { h with back := ⟨h.back.parity, h.back.remote_le, fun ho => by rw [hc] at ho; cases ho⟩ }

end Joint

/-- An invariant that withstands every step of the first endpoint. -/
structure Lasting (J : Endpoint → List Message → List Message → Endpoint → Prop) : Prop where
  joint : ∀ {a out inc b}, J a out inc b → Joint a out inc b
  local_ : ∀ {a a' out inc b}, J a out inc b → Endpoint.Local a a' → J a' out inc b
  consume : ∀ {a a' out m inc b}, J a out (m :: inc) b → a.closed = false →
    Endpoint.Consume m a a' → J a' out inc b
  emit : ∀ {a out m rest inc b}, J a out inc b → Session.Picks a.queue m rest →
    J { a with queue := rest } (out ++ [m]) inc b
  lose : ∀ {a out m inc b}, J a out (m :: inc) b → a.closed = true → J a out inc b

theorem Lasting.locals {J : Endpoint → List Message → List Message → Endpoint → Prop}
    (hJ : Lasting J) (h : J a out inc b) (hs : ReflTransGen Endpoint.Local a a') :
    J a' out inc b := by
  induction hs with
  | refl => exact h
  | tail _ hstep ih => exact hJ.local_ ih hstep

theorem Joint.lasting : Lasting Joint where
  joint h := h
  local_ := local_
  consume := consume
  emit := emit
  lose := lose

end TalkSphere
