import TalkSphere.EventGrammar

/-! How a session closes: which call does it, and the events it queues then. -/

namespace TalkSphere

open Std (TreeMap)
open Relation (ReflTransGen)

namespace Session

variable {h : History} {s s' : Session}

/-- In the call from `s` to `s'` the session closes in the state `s₀`. Only a ping that was
started too late may be gone without a result. -/
structure ClosesIn (h : History) (s s₀ s' : Session) (late : Instant → Prop) : Prop where
  ready : Ready h s₀
  open_ : s₀.closed = false
  steps : ReflTransGen Endpoint.Free (s.endpoint h) (s₀.endpoint h)
  result : ∃ failure response, s' = s₀.close failure response
  handle : s₀.handle = s.handle
  probes : ∀ (token : Token) (x : Instant × Instant), s₀.pings[token]? = some x →
    s.pings[token]? = some x
  finished : ∀ (token : Token) (x : Instant × Instant), s.pings[token]? = some x →
    s₀.pings[token]? = some x ∨
    (∃ r, .pingFinished s.handle.id token r ∈ s₀.events.drop h.seen) ∨ late x.1

theorem ClosesIn.mono {s₀ : Session} {late late' : Instant → Prop} (hc : ClosesIn h s s₀ s' late)
    (hl : ∀ started, late started → late' started) : ClosesIn h s s₀ s' late' :=
  { hc with
    finished := fun token x hx => (hc.finished token x hx).imp_right (Or.imp_right (hl x.1)) }

def Answered (f : VerifiedFrame) (token : Token) : Prop :=
  f.wire.header.frameType = .pong ∧ PingToken.decode f.wire.payload = .ok token

end Session

def onPing (token : Token) : Event → Bool
  | .pingFinished _ t _ => t == token
  | _ => false

def Alive (id : UInt32) (log : List Event) : Prop :=
  trace id log ≠ [] ∧ ∀ stream outcome, .streamClosed stream outcome ∉ trace id log

namespace Endpoint

variable {e e' : Endpoint} {i : UInt32}

theorem Lives.alive_iff (hl : e.Lives i) : Alive i e.log ↔ (e.streams i).isSome := by
  unfold Lives at hl
  cases hst : e.streams i with
  | some st =>
    rw [hst] at hl
    obtain ⟨context, protocol, data, hd, hlog⟩ := hl
    refine ⟨fun _ => rfl, fun _ => ⟨by simp [hlog], fun stream outcome hm => ?_⟩⟩
    rw [hlog] at hm
    rcases List.mem_cons.mp hm with hm | hm
    · cases hm
    · rcases List.mem_append.mp hm with hm | hm
      · obtain ⟨bytes, he⟩ := hd _ hm
        cases he
      · split at hm <;> simp at hm
  | none =>
    rw [hst] at hl
    refine ⟨fun ha => ?_, nofun⟩
    rcases hl with hl | ⟨-, context, stream, protocol, data, ended, o, -, -, -, hlog⟩
    · exact absurd hl ha.1
    · exact absurd (by simp [hlog]) (ha.2 stream o)

def Silent (e : Endpoint) : Prop := e.closed = false → ∀ id f, .connectionClosed id f ∉ e.log

theorem Silent.free (hq : e.Silent) (h : Free e e') : e'.Silent := by
  intro hopen id f hm
  have hstay : e.closed = false → .connectionClosed id f ∈ e.log → False := fun h => hq h id f
  cases h with
  | own h =>
    cases h with
    | note events ho hping =>
      rcases List.mem_append.mp hm with hm | hm
      · exact hstay hopen hm
      · obtain ⟨c, t, r, he⟩ := hping _ hm
        cases he
    | close => cases hopen
    | open_ | completed | stop =>
      exact hstay hopen (by simpa [push, enroll, drop] using hm)
    | probe | send | end_ | reported | drain => exact hstay hopen hm
  | read h =>
    cases h with
    | admitted | data | overflow | end_ | stop =>
      exact hstay hopen (by simpa [enroll, drop] using hm)
    | goAway ho hlog hevents =>
      rcases List.mem_append.mp hm with hm | hm
      · exact hstay hopen hm
      · exact absurd (hevents _ hm) (by simp [Event.stream?])
    | fatal => cases hopen
    | refused | ignored | probe => exact hstay hopen hm
  | forced h =>
    cases h with
    | fail => exact hstay hopen (by simpa [drop] using hm)
    | close => cases hopen
  | popped => exact hstay hopen hm

/-- Whatever holds of an endpoint in every run, against any peer. -/
structure Healthy (e : Endpoint) : Prop where
  own : e.Own
  lives : ∀ i, e.Lives i
  silent : e.Silent

theorem Healthy.free (hh : e.Healthy) (h : Free e e') : e'.Healthy :=
  ⟨hh.own.free h, fun i => (hh.lives i).step hh.own h, hh.silent.free h⟩

theorem Healthy.frees (hh : e.Healthy) (h : ReflTransGen Free e e') : e'.Healthy := by
  induction h with
  | refl => exact hh
  | tail _ hstep ih => exact ih.free hstep

theorem Healthy.grows (hh : e.Healthy) (h : ReflTransGen Free e e') :
    ∃ events, e'.log = e.log ++ events := by
  induction h with
  | refl => exact ⟨[], (List.append_nil _).symm⟩
  | tail hs hstep ih =>
    obtain ⟨events, he⟩ := ih
    obtain ⟨⟨more, hm⟩, -⟩ := hstep.grows (i := 0) (hh.frees hs).own
    exact ⟨events ++ more, by rw [hm, he, List.append_assoc]⟩

theorem Free.closed (hc : e.closed = true) (h : Free e e') : e'.closed = true ∧ e'.log = e.log := by
  have hno : e.closed = false → False := fun h => by rw [hc] at h; cases h
  cases h with
  | own h =>
    cases h with
    | reported => exact ⟨hc, rfl⟩
    | note events ho | probe ho | open_ c s p ho | send ho | end_ ho | completed ho | stop r ho
    | drain c ho | close r ho => exact (hno ho).elim
  | read h =>
    cases h with
    | admitted c s p ho | refused r ho | data ho | overflow r ho | end_ ho | stop ho | ignored ho
    | goAway ho | probe ho | fatal ho => exact (hno ho).elim
  | forced h =>
    cases h with
    | fail r ho | close r ho => exact (hno ho).elim
  | popped => exact ⟨hc, rfl⟩

theorem closed_frees (h : ReflTransGen Free e e') (hc : e.closed = true) :
    e'.closed = true ∧ e'.log = e.log := by
  induction h with
  | refl => exact ⟨hc, rfl⟩
  | tail _ hstep ih =>
    obtain ⟨hc', hl'⟩ := hstep.closed ih.1
    exact ⟨hc', hl'.trans ih.2⟩

end Endpoint

end TalkSphere
