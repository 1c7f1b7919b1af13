import TalkSphere.ConnectionSound

/-! The events a connection reports on its own, before there is a session to report them:
its end, once, with the move that ends it. -/

namespace TalkSphere

open Relation (ReflTransGen)

namespace Connection

section

variable {σ γ : Type} [Cryptography γ] {c c' : Connection σ γ}

inductive Told (c c' : Connection σ γ) : Prop
  | nothing (handle : c'.handle = c.handle) (events : c'.events = c.events)
  | closed {failure : Failure} (live : c.socket.isSome) (early : c.session = none)
      (opened : c.closing = false) (handle : c'.handle = c.handle)
      (events : c'.events = c.events ++ [.connectionClosed c.handle.id (some failure)])
      (still : c'.session = none) (ceased : c'.closing = true ∨ c'.socket = none)

@[simp] theorem release_events (c : Connection σ γ) : c.release.events = c.events := rfl

theorem release_session_none (h : c.session = none) : c.release.session = none := by
  simp [release, onSession, withSession, setWriter, clearOutput, h]

theorem Told.abort (live : c.socket.isSome) (d : Disposition) : Told c (c.abort d) := by
  rw [abort_eq live]
  unfold conclude
  split_ifs with hs hc
  · exact .nothing rfl rfl
  · exact .nothing rfl rfl
  · exact .closed live (by simpa using hs) (by simpa using hc) rfl rfl
      (release_session_none (by simpa using hs)) (.inr rfl)

theorem Told.fail (live : c.socket.isSome) (opened : c.closing = false) (d : Disposition)
    (now : Instant) : Told c (c.fail d now) := by
  have hf := c.fail_failed d now
  generalize c.fail d now = c' at hf ⊢
  cases hf with
  | aborted => exact .abort live _
  | shut safe session => exact .nothing rfl rfl
  | silent safe session => exact .closed live session opened rfl rfl session (.inl rfl)
  | answered safe session => exact .closed live session opened rfl rfl session (.inl rfl)

theorem nextFrame_session {next : Option WireFrame} (h : c.nextFrame = (next, c')) :
    c'.session = none → c.session = none := by
  rcases c.nextFrame_cases with ⟨s, hs, hn⟩ | ⟨hs, -⟩
  · rw [hn] at h
    rw [← (Prod.mk.inj h).2, onSession_some hs]
    nofun
  · exact fun _ => hs

theorem Told.after {c₁ : Connection σ γ} (h : Told c₁ c') (live : c.socket.isSome)
    (session : c₁.session = none → c.session = none) (closing : c₁.closing = c.closing)
    (handle : c₁.handle = c.handle) (events : c₁.events = c.events) : Told c c' := by
  cases h with
  | nothing h₁ h₂ => exact .nothing (h₁.trans handle) (h₂.trans events)
  | closed _ early opened h₁ h₂ still ceased =>
    exact .closed live (session early) (closing ▸ opened) (h₁.trans handle)
      (by rw [h₂, handle, events]) still ceased

theorem Told.written (live : c.socket.isSome) (now : Instant) : Told c (c.written now).2 := by
  have hw := written_written c now
  generalize (c.written now).2 = c' at hw ⊢
  cases hw with
  | unknown | sealed | plain | sent => exact .nothing rfl rfl
  | @unsent _ _ _ i' e =>
    have ht := Told.abort (c := { c with writing := none, integrity := some i' }) live (.integrity e)
    exact ht.after live id rfl rfl rfl
  | @rejected _ _ h e _ opened =>
    have ht := Told.fail (c := { c with writing := none, handshake := some h.close }) live opened
      (.handshake e) now
    exact ht.after live id rfl rfl rfl

theorem settle_told (c : Connection σ γ) (now : Instant) : Told c (c.settle now) := by
  unfold settle
  split_ifs <;> exact .nothing rfl rfl

theorem Told.delivered {ι : Type} [Identity ι] {f : WireFrame} {now : Instant}
    {registry : Registry} {identity : ι} {crypto : γ} (live : c.socket.isSome)
    (opened : c.closing = false) (h : Delivered c f now registry identity crypto c') :
    Told c c' := by
  cases h with
  | unkeyed | answered | verified => exact .nothing rfl rfl
  | @crowded _ h' =>
    have ht := Told.abort (c := { c with handshake := some h' }) live (localFailure .resourceLimit)
    exact ht.after live id rfl rfl rfl
  | @rejected h e =>
    have ht := Told.fail (c := { c with handshake := some h.close }) live opened (.handshake e) now
    exact ht.after live id rfl rfl rfl
  | @forged _ i' e =>
    have ht := Told.abort (c := { c with integrity := some i' }) live (.integrity e)
    exact ht.after live id rfl rfl rfl
  | @taken _ i' verified =>
    refine (settle_told _ now).after live (fun h => ?_) rfl rfl rfl
    by_contra hs
    obtain ⟨s, hs⟩ := Option.ne_none_iff_exists'.mp hs
    simp [onSession, withSession, hs] at h

def Quiet (c : Connection σ γ) : Prop :=
  ∀ e ∈ c.events, ∃ id failure, e = .connectionClosed id failure

theorem Quiet.told (hq : c.Quiet) (h : Told c c') : c'.Quiet := by
  cases h with
  | nothing _ events => exact fun e he => hq e (events ▸ he)
  | closed _ _ _ _ events =>
    intro e he
    rw [events, List.mem_append, List.mem_singleton] at he
    rcases he with he | rfl
    · exact hq e he
    · exact ⟨_, _, rfl⟩

theorem Quiet.popEvent_session (hq : c.Quiet) {e : Event} (h : c.popEvent.1 = some e)
    (hne : ∀ id failure, e ≠ .connectionClosed id failure) : c.session.isSome := by
  cases hc : c.events with
  | nil =>
    cases hs : c.session with
    | none => simp [popEvent, hc, withSession, hs] at h
    | some s => rfl
  | cons e₀ rest =>
    simp only [popEvent, hc, Option.some.injEq] at h
    obtain ⟨id, failure, he⟩ := hq e₀ (hc ▸ List.mem_cons_self)
    exact absurd (h.symm.trans he) (hne id failure)

end

variable {σ γ ι : Type} [Socket σ] [Cryptography γ] [Identity ι] {c c' : Connection σ γ}

theorem Move.told (h : Move ι c c') : Told c c' := by
  cases h with
  | tick live now => exact .nothing rfl rfl
  | idle live empty | drained live free empty closing =>
    obtain ⟨_, _, _, rfl⟩ := nextFrame_eq empty
    exact .nothing rfl rfl
  | admitted live free next start =>
    obtain ⟨_, _, _, rfl⟩ := nextFrame_eq next
    cases start
    exact .nothing rfl rfl
  | @refused c₁ _ f crypto d live free next start =>
    have hs := nextFrame_session next
    have hsame : c₁.socket = c.socket ∧ c₁.closing = c.closing ∧ c₁.handle = c.handle ∧
        c₁.events = c.events := by
      obtain ⟨_, _, _, rfl⟩ := nextFrame_eq next
      exact ⟨rfl, rfl, rfl, rfl⟩
    obtain ⟨hsock, hclose, hhandle, hevents⟩ := hsame
    rw [← hsock] at live
    cases start with
    | @unsealed _ i' e =>
      have ht := Told.abort (c := dropFrame { c₁ with integrity := some i' } f) live (.integrity e)
      exact ht.after (hsock ▸ live) hs hclose hhandle hevents
    | @unstarted integrity frame e =>
      have ht := Told.abort (c := dropFrame { c₁ with integrity } frame) live (.framing e)
      exact ht.after (hsock ▸ live) hs hclose hhandle hevents
  | flushed live busy flush => exact .nothing rfl rfl
  | @broken socket socket' writer e live busy flush =>
    have ht := Told.abort (c := { c with socket := some socket' }.setWriter writer) rfl (.framing e)
    exact ht.after (isSome_of_eq live) id rfl rfl rfl
  | @written socket socket' writer now live busy flush =>
    have ht := Told.written (c := { c with socket := some socket' }.setWriter writer) rfl now
    exact ht.after (isSome_of_eq live) id rfl rfl rfl
  | establish =>
    rcases c.establish_cases with he | ⟨h, e, h', hh, ht, he⟩ <;> rw [he]
    · exact .nothing rfl rfl
    · exact .nothing rfl rfl
  | waiting live opened keyed poll => exact .nothing rfl rfl
  | @faulted socket socket' reader e now live opened keyed poll =>
    have ht := Told.fail (c := (c.polled reader socket').faulted e) rfl opened (.framing e) now
    exact ht.after (isSome_of_eq live) id rfl rfl rfl
  | @ended socket socket' reader live opened keyed poll =>
    unfold Connection.ended
    split_ifs
    · exact .nothing rfl rfl
    · have ht := Told.abort (c := c.polled reader socket') rfl (localFailure .connectionLost)
      exact ht.after (isSome_of_eq live) id rfl rfl rfl
  | @delivered socket socket' reader f now registry identity crypto live opened keyed poll =>
    have ht := Told.delivered (c := (c.polled reader socket').heard f) rfl opened
      (deliver_delivered _ f now registry identity crypto)
    exact ht.after (isSome_of_eq live) id rfl rfl rfl
  | finish ready => exact .nothing rfl rfl
  | expired live late timed => exact .abort live _

theorem Quiet.moves (hq : c.Quiet) (h : Moves ι c c') : c'.Quiet := by
  induction h with
  | refl => exact hq
  | tail _ h ih => exact ih.told h.told

theorem Quiet.run (hq : c.Quiet) (op : Op σ γ ι) : (c.run op).Quiet := by
  cases op with
  | poll now registry identity crypto => exact hq.moves (poll_moves c now registry identity crypto)
  | close =>
    by_cases hs : c.socket.isNone = true
    · rwa [Connection.run, Connection.close, abort, if_pos hs]
    · exact hq.told (.abort (by simpa [Option.isSome_iff_ne_none] using hs) _)
  | request call => exact hq
  | popEvent =>
    intro e he
    cases hc : c.events with
    | nil => simp [Connection.run, popEvent, hc, withSession] at he
    | cons e₀ rest =>
      simp only [Connection.run, popEvent, hc] at he
      exact hq e (hc ▸ List.mem_cons_of_mem _ he)
  | setHandle handle => exact hq
  | world socket outbound connections => exact hq

end Connection

end TalkSphere
