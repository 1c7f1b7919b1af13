import TalkSphere.SlowConsumer

/-! Local calls that are refused. Some of them reserve output or number a stream before
their last check; a refusal gives back what they took. -/

namespace TalkSphere

open Relation (ReflTransGen)

def error? {ε α : Type} : Except ε α → Option ε
  | .error e => some e
  | .ok _ => none

def Call.refusal (s : Session) : Call → Option SessionError
  | .open_ registry owner => error? (s.open_ registry owner).1
  | .send owner stream bytes => error? (s.send owner stream bytes).1
  | .end_ owner stream => error? (s.end_ owner stream).1
  | .cancel owner stream reason => error? (s.cancel owner stream reason).1
  | .ping token timeout now => error? (s.ping token timeout now).1
  | .drain reason => error? (s.drain reason).1
  | _ => none

namespace Party

variable {p : Party} {e : SessionError}

theorem refused_unchanged {α : Type} {c : Call} {out : Except SessionError α × Session}
    (ha : Session.Answer p.session c out) (he : error? out.1 = some e) :
    out.2 = p.session ∧ ∀ i, e ≠ .id i := by
  cases ha with
  | served a s' => cases he
  | refused other =>
    obtain rfl := Option.some.inj he
    exact ⟨rfl, other⟩

/-- A refused call changes nothing of the session, its queues and its budget. Only `open`
may run out of ids, and then it has drained. -/
theorem rejected_calls_atomic {role : ConnectionRole} {s : Session} {clock : Instant} {c : Call}
    (hs : s.Fresh role) (hp : ReflTransGen Party.Step (Party.start s clock) p)
    (he : c.refusal p.session = some e) :
    (e ≠ .id .exhausted → (p.run c).session = p.session) ∧
    (e = .id .exhausted → (∃ registry owner, c = .open_ registry owner) ∧
      (p.session.drain .idExhausted).1 = .ok () ∧
      (p.run c).session = (p.session.drain .idExhausted).2) := by
  have hsound := (steps_healthy (p := Party.start s clock) hs.sound.1 (hs.healthy clock) hp).1
  have plain : ∀ {α : Type} {out : Except SessionError α × Session},
      Session.Answer p.session c out → error? out.1 = some e → (p.run c).session = out.2 →
      (e ≠ .id .exhausted → (p.run c).session = p.session) ∧
      (e = .id .exhausted → (∃ registry owner, c = .open_ registry owner) ∧
        (p.session.drain .idExhausted).1 = .ok () ∧
        (p.run c).session = (p.session.drain .idExhausted).2) := by
    intro α out ha he hrun
    obtain ⟨hsame, hid⟩ := refused_unchanged ha he
    exact ⟨fun _ => hrun.trans hsame, fun h => absurd h (hid _)⟩
  cases c with
  | open_ registry owner =>
    have ha := Session.open_answer hsound.ids registry owner
    have hrun : (p.run (.open_ registry owner)).session = (p.session.open_ registry owner).2 := rfl
    simp only [Call.refusal] at he
    generalize p.session.open_ registry owner = out at ha he hrun
    cases ha with
    | answer answer => exact plain answer he hrun
    | exhausted drained =>
      obtain rfl := Option.some.inj he
      rw [drained]
      exact ⟨fun h => absurd rfl h, fun _ => ⟨⟨registry, owner, rfl⟩, rfl, hrun⟩⟩
  | send owner stream bytes => exact plain (p.session.send_answer owner stream bytes) he rfl
  | end_ owner stream => exact plain (p.session.end_answer owner stream) he rfl
  | cancel owner stream reason => exact plain (p.session.cancel_answer owner stream reason) he rfl
  | ping token timeout now => exact plain (p.session.ping_answer token timeout now) he rfl
  | drain reason => exact plain (p.session.drain_answer reason) he rfl
  | _ => cases he

/-- A consumer sends on a stream of another one. -/
theorem rejected_calls_atomic_send :
    (Call.send ⟨1⟩ .chat [0]).refusal busy.session = some (.authority .wrongStreamOwner) ∧
      (busy.run (.send ⟨1⟩ .chat [0])).session = busy.session := by
  have he : (Call.send ⟨1⟩ .chat [0]).refusal busy.session = some (.authority .wrongStreamOwner) := by
    decide +kernel
  exact ⟨he, (rejected_calls_atomic ⟨_, _, _, _, rfl⟩ busy_reached he).1 nofun⟩

end Party

end TalkSphere
