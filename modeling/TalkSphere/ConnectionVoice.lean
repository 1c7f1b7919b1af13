import TalkSphere.ConnectionEvents
import TalkSphere.SessionVoice

/-! What a consumer of a connection hears, from the connection itself and then from its
session: events of this connection, and nothing once its closure is queued. -/

namespace TalkSphere

open Relation (ReflTransGen)

theorem Session.popEvent_eq (s : Session) :
    s.popEvent = (s.events.head?, { s with events := s.events.tail }) := by
  cases h : s.events with
  | nil =>
    simp only [popEvent, h, List.head?_nil, List.tail_nil]
    rw [← h]
  | cons e rest => simp [popEvent, h]

namespace Connection

section

variable {σ γ : Type} [Cryptography γ] {c c₁ c' : Connection σ γ}

def pending (c : Connection σ γ) : List Event := c.events ++ (c.session.map Session.events).getD []

def ceased (c : Connection σ γ) : Bool :=
  match c.session with
  | some s => s.closed
  | none => c.closing || c.socket.isNone

def Named (c : Connection σ γ) : Prop := ∀ s ∈ c.session, s.Named ∧ s.handle = c.handle

structure Voice (c c' : Connection σ γ) : Prop where
  handle : c'.handle = c.handle
  named : c.Named → c'.Named
  heard : c.Named → ∃ events, c'.pending = c.pending ++ events ∧
    (∀ e ∈ events, e.connection? = some c.handle.id) ∧ Ends c.handle.id c.ceased events c'.ceased

theorem Voice.trans (h : Voice c c₁) (h' : Voice c₁ c') : Voice c c' := by
  refine ⟨h'.handle.trans h.handle, fun hn => h'.named (h.named hn), fun hn => ?_⟩
  obtain ⟨events, hq, ho, he⟩ := h.heard hn
  obtain ⟨more, hq', ho', he'⟩ := h'.heard (h.named hn)
  rw [h.handle] at ho' he'
  refine ⟨events ++ more, by rw [hq', hq, List.append_assoc], ?_, he.trans he'⟩
  simpa only [List.mem_append, or_imp, forall_and] using ⟨ho, ho'⟩

theorem Voice.same (handle : c'.handle = c.handle) (events : c'.events = c.events)
    (session : c'.session = c.session) (ceased : c'.ceased = c.ceased) : Voice c c' := by
  refine ⟨handle, fun hn => by rwa [Named, session, handle], fun _ => ⟨[], ?_, nofun, ?_⟩⟩
  · rw [pending, events, session, List.append_nil, pending]
  · rw [ceased]
    exact .quiet _

theorem Voice.refl (c : Connection σ γ) : Voice c c := .same rfl rfl rfl rfl

theorem over_of_session {s : Session} (h : c.session = some s) : c.ceased = s.closed := by
  simp only [ceased, h]

theorem over_of_early (h : c.session = none) : c.ceased = (c.closing || c.socket.isNone) := by
  simp only [ceased, h]

theorem over_congr (session : c'.session = c.session) (closing : c'.closing = c.closing)
    (socket : c'.socket.isNone = c.socket.isNone) : c'.ceased = c.ceased := by
  simp only [ceased, session, closing, socket]

theorem Voice.session {s s' : Session} (hs : c.session = some s) (hs' : c'.session = some s')
    (handle : c'.handle = c.handle) (events : c'.events = c.events)
    (h : Session.Speaks s s') : Voice c c' := by
  obtain ⟨new, hv⟩ := h
  have own : c.Named → s.Named ∧ s.handle = c.handle := fun hn => hn s hs
  refine ⟨handle, fun hn t ht => ?_, fun hn => ⟨new, ?_, fun e he => ?_, ?_⟩⟩
  · obtain rfl := Option.some.inj (hs'.symm.trans ht)
    exact ⟨hv.named (own hn).1, by rw [hv.handle, (own hn).2, handle]⟩
  · simp [pending, hs, hs', events, hv.queue]
  · rw [hv.own (own hn).1 e he, (own hn).2]
  · rw [over_of_session hs, over_of_session hs', ← (own hn).2]
    exact hv.ends

theorem Voice.onSession (f : Session → Session)
    (h : ∀ s ∈ c.session, Session.Speaks (s.setResources c.resources)
      (f (s.setResources c.resources))) : Voice c (c.onSession f) := by
  rcases Option.eq_none_or_eq_some c.session with hs | ⟨s, hs⟩
  · rw [onSession_none hs]
    exact .refl c
  · have hset : Session.Speaks s (s.setResources c.resources) :=
      .quiet rfl rfl rfl rfl fun hn => hn.streams
    exact .session hs (by rw [onSession_some hs]) rfl rfl (hset.trans (h s hs))

theorem Voice.release (h : c.ceased = true) : Voice c c.release := by
  rcases Option.eq_none_or_eq_some c.session with hs | ⟨s, hs⟩
  · have hnone := release_session_none hs
    refine .same rfl rfl (hnone.trans hs.symm) ?_
    rw [h, over_of_early hnone]
    exact Bool.or_true _
  · obtain ⟨s', hs'⟩ : ∃ s', c.release.session = some s' := by
      simp [Connection.release, Connection.onSession, withSession, setWriter, clearOutput, hs]
    obtain ⟨s₀, h₀, last, outbound, resources, rfl⟩ := release_session hs'
    obtain rfl := Option.some.inj (hs.symm.trans h₀)
    exact .session hs hs' rfl rfl (.taken s last outbound resources)

theorem onSession_close_over (hs : c.session.isSome) (failure : Option Failure)
    (response : Option ErrorCode) :
    (c.onSession fun s => s.close failure response).ceased = true := by
  obtain ⟨s, hs⟩ := Option.isSome_iff_exists.mp hs
  rw [over_of_session (by rw [onSession_some hs])]
  exact (Session.close_keeps _ _ _).1

theorem Voice.shut (hs : c.session.isSome) (failure : Option Failure) :
    Voice c (c.onSession fun s => s.close failure none).release :=
  (Voice.onSession _ fun _ _ => Session.close_speaks _ _ _).trans
    (.release (onSession_close_over hs failure none))

theorem Voice.closed {failure : Failure} (early : c.session = none) (still : c'.session = none)
    (hopen : c.ceased = false) (ceased : c'.ceased = true) (handle : c'.handle = c.handle)
    (events : c'.events = c.events ++ [.connectionClosed c.handle.id (some failure)]) :
    Voice c c' := by
  refine ⟨handle, fun _ s hs => ?_, fun _ => ⟨[.connectionClosed c.handle.id (some failure)], ?_,
    fun e he => ?_, ?_⟩⟩
  · rw [still] at hs
    cases hs
  · simp [pending, early, still, events]
  · rw [List.mem_singleton.mp he]
    rfl
  · rw [hopen, ceased]
    exact .closed ..

theorem over_of_opened (live : c.socket.isSome) (early : c.session = none)
    (opened : c.closing = false) : c.ceased = false := by
  rw [over_of_early early, opened, Bool.false_or]
  simpa [Option.isSome_iff_ne_none] using live

theorem Voice.abort (live : c.socket.isSome) (d : Disposition) : Voice c (c.abort d) := by
  rw [abort_eq live]
  unfold conclude
  split_ifs with hs hc
  · exact .shut hs _
  · have early : c.session = none := by simpa using hs
    exact .release (by rw [over_of_early early, hc, Bool.true_or])
  · have early : c.session = none := by simpa using hs
    have still := release_session_none
      (c := { c with events := c.events ++ [.connectionClosed c.handle.id (some d.failure)] }) early
    exact .closed early still (over_of_opened live early (by simpa using hc))
      (by rw [over_of_early still]; exact Bool.or_true _) rfl rfl

theorem Voice.fail (live : c.socket.isSome) (opened : c.closing = false) (d : Disposition)
    (now : Instant) : Voice c (c.fail d now) := by
  have hf := c.fail_failed d now
  generalize c.fail d now = c' at hf ⊢
  cases hf with
  | aborted => exact .abort live _
  | @shut code deadline safe session =>
    obtain ⟨s, hs⟩ := Option.isSome_iff_exists.mp session
    have hset : Voice c { c with deadline, closing := true }.clearOutput :=
      .same rfl rfl rfl (by rw [over_of_session hs, over_of_session (by exact hs)])
    exact hset.trans (.onSession _ fun _ _ => Session.close_speaks _ _ _)
  | silent safe early | answered safe early =>
    exact .closed early early (over_of_opened live early opened)
      (by rw [over_of_early (by exact early)]; rfl) rfl rfl

theorem Voice.sent (hs : ∀ s ∈ c.session, s.Sound) (kind : FrameType) (id : UInt32) :
    Voice c (c.onSession (·.sent kind id)) :=
  .onSession _ fun s h => Session.sent_speaks ((hs s h).withResources c.resources) kind id

theorem Voice.written (live : c.socket.isSome) (hs : ∀ s ∈ c.session, s.Sound) (now : Instant) :
    Voice c (c.written now).2 := by
  have hw := written_written c now
  generalize (c.written now).2 = c' at hw ⊢
  cases hw with
  | unknown => exact .refl c
  | @unsent _ _ _ i' e =>
    have hset : Voice c { c with writing := none, integrity := some i' } := .same rfl rfl rfl rfl
    exact hset.trans (.abort (by exact live) _)
  | @rejected _ _ h e _ opened =>
    have hset : Voice c { c with writing := none, handshake := some h.close } :=
      .same rfl rfl rfl rfl
    exact hset.trans (.fail (by exact live) (by exact opened) _ now)
  | @sealed kind id integrity =>
    have hset : Voice c { c with writing := none, integrity } := .same rfl rfl rfl rfl
    exact hset.trans (.sent (by exact hs) kind id)
  | @plain kind id =>
    have hset : Voice c { c with writing := none } := .same rfl rfl rfl rfl
    exact hset.trans (.sent (by exact hs) kind id)
  | @sent kind id _ h' =>
    have hset : Voice c { c with writing := none, handshake := some h' } := .same rfl rfl rfl rfl
    exact hset.trans (.sent (by exact hs) kind id)

theorem Voice.settle (c : Connection σ γ) (now : Instant) : Voice c (c.settle now) := by
  rcases Option.eq_none_or_eq_some c.session with hs | ⟨s, hs⟩
  · simp only [Connection.settle, hs, Option.any_none, Bool.false_eq_true, if_false]
    exact .refl c
  · simp only [Connection.settle, hs, Option.any_some]
    split_ifs with hclosed
    · exact .release (by rw [over_of_session hs, hclosed])
    · exact .same rfl rfl hs.symm (by rw [over_of_session hs, over_of_session rfl])
    · exact .refl c

theorem Voice.delivered {ι : Type} [Identity ι] {f : WireFrame} {now : Instant}
    {registry : Registry} {identity : ι} {crypto : γ} (live : c.socket.isSome)
    (opened : c.closing = false) (hs : ∀ s ∈ c.session, s.Sound)
    (h : Delivered c f now registry identity crypto c') : Voice c c' := by
  cases h with
  | unkeyed => exact .refl c
  | answered | verified => exact .same rfl rfl rfl rfl
  | @crowded _ h' =>
    have hset : Voice c { c with handshake := some h' } := .same rfl rfl rfl rfl
    exact hset.trans (.abort (by exact live) _)
  | @rejected h e =>
    have hset : Voice c { c with handshake := some h.close } := .same rfl rfl rfl rfl
    exact hset.trans (.fail (by exact live) (by exact opened) _ now)
  | @forged _ i' e =>
    have hset : Voice c { c with integrity := some i' } := .same rfl rfl rfl rfl
    exact hset.trans (.abort (by exact live) _)
  | @taken _ i' verified =>
    have hset : Voice c { c with integrity := some i' } := .same rfl rfl rfl rfl
    refine hset.trans (Voice.trans (.onSession _ fun s h => ?_) (.settle _ now))
    exact Session.receive_speaks ((hs s h).withResources _) verified registry now

theorem Voice.nextFrame {next : Option WireFrame} (h : c.nextFrame = (next, c')) : Voice c c' := by
  rcases c.nextFrame_cases with ⟨s, hs, hn⟩ | ⟨hs, ⟨-, hn⟩ | ⟨f, rest, -, hn⟩⟩ <;>
    rw [hn] at h <;> obtain rfl := (Prod.mk.inj h).2
  · refine .onSession _ fun s _ => ?_
    obtain ⟨last, outbound, hp⟩ := (s.setResources c.resources).popOutbound_eq
    rw [hp]
    exact .taken _ last outbound _
  · exact .refl c
  · exact .same rfl rfl rfl rfl

theorem nextFrame_over {next : Option WireFrame} (h : c.nextFrame = (next, c')) :
    c'.ceased = c.ceased := by
  rcases c.nextFrame_cases with ⟨s, hs, hn⟩ | ⟨hs, ⟨-, hn⟩ | ⟨f, rest, -, hn⟩⟩ <;>
    rw [hn] at h <;> obtain rfl := (Prod.mk.inj h).2
  · obtain ⟨last, outbound, hp⟩ := (s.setResources c.resources).popOutbound_eq
    rw [over_of_session hs, onSession_some hs, over_of_session rfl, hp]
    rfl
  · rfl
  · rfl

theorem Sound.ceased (hc : c.Sound) (h : c.closing = true ∨ c.socket = none) : c.ceased = true := by
  rcases Option.eq_none_or_eq_some c.session with hs | ⟨s, hs⟩
  · rw [over_of_early hs]
    rcases h with h | h <;> simp [h]
  · rw [over_of_session hs]
    exact hc.shut h s hs

theorem Sound.starting (hc : c.Sound) {h h' : Handshake γ}
    {e : Established (Cryptography.IntegrityKey γ)}
    (hh : c.handshake = some h) (ht : h.takeEstablished = (some e, h')) :
    c.session = none ∧ c.ceased = false := by
  have early : c.session = none := (hc.apart (by rw [hh]; rfl)).1
  have live : c.socket.isSome := by
    by_contra hg
    exact absurd (hc.gone (by simpa using hg)).handshake (by simp [hh])
  have opened : c.closing = false := by
    refine hc.opened hh ?_
    by_contra hn
    simp [Handshake.takeEstablished, hn] at ht
  exact ⟨early, over_of_opened live early opened⟩

theorem Voice.establish (hc : c.Sound) : Voice c c.establish := by
  rcases c.establish_cases with he | ⟨h, e, h', hh, ht, he⟩ <;> rw [he]
  · exact .refl c
  · obtain ⟨early, opened⟩ := hc.starting hh ht
    refine ⟨rfl, fun _ s hs => ?_, fun _ => ⟨[.authenticated ⟨c.handle.id, e.role,
      e.localIdentity, e.peerIdentity⟩], ?_, fun ev hev => ?_, ?_⟩⟩
    · obtain rfl := Option.some.inj hs
      have hn := Session.withHandle_named c.handle e.role e.localIdentity e.peerIdentity
      exact ⟨⟨hn.context, hn.streams⟩, rfl⟩
    · simp [pending, early, Session.withHandle, Session.setResources]
    · rw [List.mem_singleton.mp hev]
      rfl
    · rw [opened]
      exact .going fun ev hev => by rw [List.mem_singleton.mp hev]; rfl

theorem Voice.finish (ready : c.readyToClose = true) : Voice c c.finish := by
  have hs : c.session.isSome := by
    rcases Option.eq_none_or_eq_some c.session with hs | ⟨s, hs⟩
    · simp [readyToClose, hs] at ready
    · rw [hs]
      rfl
  exact .shut hs none

theorem Voice.ended (live : c.socket.isSome) : Voice c c.ended := by
  unfold Connection.ended
  split_ifs with ready
  · exact .finish ready
  · exact .abort live _

theorem Voice.close (c : Connection σ γ) : Voice c c.close := by
  by_cases hs : c.socket.isNone = true
  · rw [Connection.close, Connection.abort, if_pos hs]
    exact .refl c
  · exact .abort (by simpa [Option.isSome_iff_ne_none] using hs) _

theorem Voice.request (hc : c.Sound) {call : Call} (hq : ¬ call.isRead = true) :
    Voice c (c.request call) :=
  .onSession _ fun s h =>
    have hs := (hc.session s h).withResources c.resources
    (Session.perform_turn hs.ids call).speaks hs hq

theorem begin_silent {ι : Type} [Identity ι] {socket : σ} {options : Options}
    {config : TransportConfig} {now : Instant} {identity : ι} {crypto crypto' : γ}
    {resources resources' : Resources} {handle : ConnectionHandle}
    (h : beginShared socket options config now identity crypto resources handle =
      (.ok c, resources', crypto')) :
    c.session = none ∧ c.handle = handle ∧ c.pending = [] ∧ c.ceased = false := by
  obtain ⟨_, _, _, _, _, _, -, -, -, rfl⟩ := beginShared_ok h
  exact ⟨rfl, rfl, rfl, rfl⟩

theorem Named.of_early (h : c.session = none) : c.Named := by
  intro s hs
  rw [h] at hs
  cases hs

theorem popEvent_pending (c : Connection σ γ) :
    c.popEvent.1 = c.pending.head? ∧ c.popEvent.2.pending = c.pending.tail ∧
      c.popEvent.2.handle = c.handle ∧ c.popEvent.2.ceased = c.ceased ∧
      (c.Named → c.popEvent.2.Named) := by
  cases he : c.events with
  | cons e rest => simp [popEvent, he, pending, ceased, Named]
  | nil =>
    rcases Option.eq_none_or_eq_some c.session with hs | ⟨s, hs⟩
    · simp [popEvent, he, pending, ceased, Named, withSession, hs]
    · have hp : c.popEvent = (s.events.head?, { c with
          session := some { s with resources := c.resources, events := s.events.tail } }) := by
        simp [popEvent, he, withSession, hs, Session.popEvent_eq, Session.setResources]
      rw [hp]
      refine ⟨?_, ?_, rfl, ?_, fun hn t ht => ?_⟩
      · simp [pending, he, hs]
      · simp [pending, he, hs]
      · rw [over_of_session hs, over_of_session rfl]
      · obtain rfl := Option.some.inj ht
        exact ⟨⟨(hn s hs).1.context, (hn s hs).1.streams⟩, (hn s hs).2⟩

end

variable {σ γ ι : Type} [Socket σ] [Cryptography γ] [Identity ι] {c c' : Connection σ γ}

theorem Move.voice (hc : c.Sound) (h : Move ι c c') : Voice c c' := by
  cases h with
  | tick live now =>
    exact .onSession _ fun s hs =>
      Session.tick_speaks ((hc.session s hs).withResources c.resources).closed_pings now
  | idle live empty => exact .nextFrame empty
  | drained live free empty closing =>
    refine (Voice.nextFrame empty).trans (.release ?_)
    rw [nextFrame_over empty]
    exact hc.ceased (.inl closing)
  | @admitted c₁ _ f crypto live free next start =>
    cases start
    exact (Voice.nextFrame next).trans (.same rfl rfl rfl rfl)
  | @refused c₁ _ f crypto d live free next start =>
    have hlive : c₁.socket.isSome := by
      obtain ⟨_, _, _, rfl⟩ := nextFrame_eq next
      exact live
    refine (Voice.nextFrame next).trans ?_
    cases start with
    | @unsealed _ i' e =>
      have hset : Voice c₁ (dropFrame { c₁ with integrity := some i' } f) := .same rfl rfl rfl rfl
      exact hset.trans (.abort (by exact hlive) _)
    | @unstarted integrity frame e =>
      have hset : Voice c₁ (dropFrame { c₁ with integrity } frame) := .same rfl rfl rfl rfl
      exact hset.trans (.abort (by exact hlive) _)
  | flushed live busy flush => exact .same rfl rfl rfl (over_congr rfl rfl (by rw [live]; rfl))
  | @broken socket socket' writer e live busy flush =>
    have hset : Voice c ({ c with socket := some socket' }.setWriter writer) :=
      .same rfl rfl rfl (over_congr rfl rfl (by rw [live]; rfl))
    exact hset.trans (.abort rfl _)
  | @written socket socket' writer now live busy flush =>
    have hset : Voice c ({ c with socket := some socket' }.setWriter writer) :=
      .same rfl rfl rfl (over_congr rfl rfl (by rw [live]; rfl))
    exact hset.trans (.written rfl (by exact hc.session) now)
  | establish => exact .establish hc
  | waiting live opened keyed poll =>
    exact .same rfl rfl rfl (over_congr rfl rfl (by rw [live]; rfl))
  | @faulted socket socket' reader e now live opened keyed poll =>
    have hset : Voice c ((c.polled reader socket').faulted e) :=
      .same rfl rfl rfl (over_congr rfl rfl (by rw [live]; rfl))
    exact hset.trans (.fail rfl (by exact opened) _ now)
  | @ended socket socket' reader live opened keyed poll =>
    have hset : Voice c (c.polled reader socket') :=
      .same rfl rfl rfl (over_congr rfl rfl (by rw [live]; rfl))
    exact hset.trans (.ended rfl)
  | @delivered socket socket' reader f now registry identity crypto live opened keyed poll =>
    have hset : Voice c ((c.polled reader socket').heard f) :=
      .same rfl rfl rfl (over_congr rfl rfl (by rw [live]; rfl))
    exact hset.trans (.delivered rfl (by exact opened) (by exact hc.session)
      (deliver_delivered _ f now registry identity crypto))
  | finish ready => exact .finish ready
  | expired live late timed => exact .abort live _

theorem Moves.voice (hc : c.Sound) (h : Moves ι c c') : Voice c c' := by
  induction h with
  | refl => exact .refl c
  | tail hs h ih => exact ih.trans (h.voice (hc.moves hs))

theorem turn_ready (c : Connection σ γ) (now : Instant) (registry : Registry) (identity : ι)
    (crypto : γ) (h : (c.turn now registry identity crypto).1 = some (.ready ())) :
    (c.turn now registry identity crypto).2.1.socket = none := by
  have hend : ∀ (c : Connection σ γ) progressed, (c.turnEnd progressed).1 = some (.ready ()) →
      (c.turnEnd progressed).2.socket = none := by
    intro c progressed h
    simp only [turnEnd] at h ⊢
    generalize (if c.establish.readyToClose then c.establish.finish else c.establish) = c' at h ⊢
    split_ifs at h ⊢ with hs
    · exact Option.isNone_iff_eq_none.mp hs
    · cases h
  simp only [turn] at h ⊢
  split_ifs at h ⊢ with hs hc
  · exact Option.isNone_iff_eq_none.mp hs
  · exact hend _ _ h
  · exact hend _ _ h

theorem turns_ready (now : Instant) (registry : Registry) (n : Nat) (c : Connection σ γ)
    (identity : ι) (crypto : γ) (h : (turns now registry n c identity crypto).1 = .ready ()) :
    (turns now registry n c identity crypto).2.1.socket = none := by
  induction n generalizing c identity crypto with
  | zero => cases h
  | succ n ih =>
    have ht := turn_ready c now registry identity crypto
    rw [turns] at h ⊢
    split at h
    case h_1 answer rest he =>
      simp only at h
      subst h
      simp only [he] at ht ⊢
      exact ht trivial
    case h_2 c₁ identity₁ crypto₁ he =>
      exact ih c₁ identity₁ crypto₁ h

theorem poll_ready (c : Connection σ γ) (now : Instant) (registry : Registry) (identity : ι)
    (crypto : γ) (h : (c.poll now registry identity crypto).1 = .ready ()) :
    (c.poll now registry identity crypto).2.1.socket = none := by
  unfold poll at h ⊢
  split_ifs at h ⊢ with hs hd
  · exact Option.isNone_iff_eq_none.mp hs
  · exact (abort_gone (by simpa [Option.isSome_iff_ne_none] using hs) _).socket
  · exact turns_ready now registry 32 _ identity crypto h

end Connection

end TalkSphere
