import TalkSphere.SessionClosure

/-! The event grammar of a session over every sequence of calls, with any frames
from the peer. -/

namespace TalkSphere

open Std (TreeMap)
open Relation (ReflTransGen)

namespace Party

variable {p p' : Party}

def Step (p p' : Party) : Prop := ∃ c, p.Enabled c ∧ p' = p.run c

theorem steps_calls (p : Party) (calls : List Call) (h : ∀ c ∈ calls, ∀ p : Party, p.Enabled c) :
    ReflTransGen Step p (calls.foldl run p) := by
  induction calls generalizing p with
  | nil => exact .refl
  | cons c calls ih =>
    exact .head ⟨c, h c List.mem_cons_self p, rfl⟩
      (ih (p.run c) fun c' hc => h c' (List.mem_cons_of_mem c hc))

/-- The events of a call that closes the session. `before` is what the call emitted
until then, `closing` the outcomes of everything unfinished, `outstanding` the
probes that were still waiting. A probe is in neither only when the call comes before the
time it was started at. -/
structure Closure (p : Party) (c : Call) (before closing : List Event)
    (outstanding : TreeMap Token (Instant × Instant)) (failure : Option Failure)
    (unfinished : Failure) : Prop where
  log : (p.run c).log =
    p.log ++ before ++ closing ++ [.connectionClosed p.session.handle.id failure]
  once : ∀ id f, .connectionClosed id f ∉ p.log ++ before ++ closing
  streams : ∀ id, (Alive id (p.log ++ before) →
      ∃ stream, trace id closing = [.streamClosed stream (.failed unfinished)]) ∧
    (¬ Alive id (p.log ++ before) → trace id closing = [])
  probes : ∀ token : Token, closing.filter (onPing token) =
    (outstanding[token]?.map fun _ =>
      .pingFinished p.session.handle.id token (.error unfinished)).toList
  others : ∀ ev ∈ closing, (∃ stream outcome, ev = .streamClosed stream outcome) ∨
    ∃ id token result, ev = .pingFinished id token result
  waiting : ∀ (token : Token) (x : Instant × Instant), outstanding[token]? = some x →
    p.session.pings[token]? = some x
  finished : ∀ (token : Token) (x : Instant × Instant), p.session.pings[token]? = some x →
    outstanding[token]? = some x ∨
    (∃ r, .pingFinished p.session.handle.id token r ∈ before) ∨ ∃ now ∈ c.now?, now < x.1

end Party

namespace Party

variable {p p' : Party}

theorem run_healthy (hs : p.session.Sound) (hh : p.endpoint.Healthy) (c : Call) :
    (p.run c).session.Sound ∧ (p.run c).endpoint.Healthy := by
  obtain ⟨hs', hf⟩ := run_free hs c
  exact ⟨hs', hh.frees hf⟩

theorem steps_healthy (hs : p.session.Sound) (hh : p.endpoint.Healthy)
    (h : ReflTransGen Step p p') : p'.session.Sound ∧ p'.endpoint.Healthy ∧
      (∃ events, p'.log = p.log ++ events) ∧
      (p.session.closed = true → p'.session.closed = true ∧ p'.log = p.log) := by
  induction h with
  | refl => exact ⟨hs, hh, ⟨[], (List.append_nil _).symm⟩, fun hc => ⟨hc, rfl⟩⟩
  | tail _ hstep ih =>
    obtain ⟨hs₁, hh₁, ⟨events, he⟩, hcl⟩ := ih
    obtain ⟨c, -, rfl⟩ := hstep
    obtain ⟨hs₂, hf⟩ := run_free hs₁ c
    obtain ⟨more, hm⟩ := hh₁.grows hf
    simp only [endpoint_log] at hm
    refine ⟨hs₂, hh₁.frees hf, ⟨events ++ more, by rw [hm, he, List.append_assoc]⟩, fun hc => ?_⟩
    obtain ⟨hc₁, hl₁⟩ := hcl hc
    obtain ⟨hc₂, hl₂⟩ := Endpoint.closed_frees hf hc₁
    simp only [endpoint_log] at hl₂
    exact ⟨hc₂, hl₂.trans hl₁⟩

end Party

/-- Along times that do not go back no call comes before the start of a waiting probe. -/
theorem Party.Closure.settled {p : Party} {c : Call} {before closing : List Event}
    {outstanding : TreeMap Token (Instant × Instant)} {failure : Option Failure}
    {unfinished : Failure} (h : p.Closure c before closing outstanding failure unfinished)
    (hp : p.Punctual) (ht : p.Timely c) (token : Token) (x : Instant × Instant)
    (hx : p.session.pings[token]? = some x) : outstanding[token]? = some x ∨
      ∃ r, .pingFinished p.session.handle.id token r ∈ before := by
  rcases h.finished token x hx with hw | hf | ⟨now, hn, hlt⟩
  · exact .inl hw
  · exact .inr hf
  · exact absurd ((hp token x hx).trans (ht now hn)) (not_le.mpr hlt)

theorem Session.Fresh.healthy {role : ConnectionRole} {s : Session} (h : s.Fresh role)
    (clock : Instant) : (Party.start s clock).endpoint.Healthy := by
  refine ⟨(h.own clock).1, fun i => ?_, fun _ id f hm => ?_⟩ <;>
    obtain ⟨handle, mine, peers, resources, rfl⟩ := h
  · simp [Endpoint.Lives, Party.endpoint, Party.start, Session.endpoint, Party.history,
      Session.setResources, Session.withHandle, trace, onStream, Event.stream?]
  · simp [Party.start, Session.setResources, Session.withHandle] at hm

def sampleToken : Token := Vector.replicate 8 7

def samplePong : VerifiedFrame :=
  ⟨⟨none, ⟨.pong, 0, 8, by decide, rfl⟩, sampleToken.toList, none, rfl⟩⟩

end TalkSphere
