import TalkSphere.ConnectionMoves
import TalkSphere.Link

/-! The shape of a connection that every move keeps: a handshake or a session with
keys while there is a socket, and nothing but the outcomes once it is released. -/

namespace TalkSphere

open Relation (ReflTransGen)
open Cryptography (IntegrityKey)

namespace Session

variable {s : Session}

theorem Sound.withResources (hs : s.Sound) (resources : Resources) :
    (s.setResources resources).Sound :=
  ⟨hs.keyed, hs.closed_streams, hs.closed_pings, hs.ids⟩

theorem perform_sound (hs : s.Sound) (call : Call) : (s.perform call).Sound :=
  (Party.run_free (p := Party.start s 0) hs call).1

theorem perform_turn (hv : s.ids.Valid) (call : Call) : Turn s call (s.perform call) :=
  Party.run_turn (p := Party.start s 0) hv call

theorem perform_closed (hc : s.closed = true) {call : Call} (hk : call.isStream = true) :
    ∃ events, s.perform call = { s with events } := by
  have hsame : ∃ events, s = { s with events } := ⟨s.events, rfl⟩
  cases call with
  | open_ registry owner => simpa [perform, Party.run, Party.after, Party.start, open_, hc] using hsame
  | send owner stream bytes =>
    simpa [perform, Party.run, Party.after, Party.start, send, hc] using hsame
  | end_ owner stream => simpa [perform, Party.run, Party.after, Party.start, end_, hc] using hsame
  | cancel owner stream reason =>
    simpa [perform, Party.run, Party.after, Party.start, cancel, hc] using hsame
  | ping token timeout now =>
    simpa [perform, Party.run, Party.after, Party.start, ping, hc] using hsame
  | drain reason => simpa [perform, Party.run, Party.after, Party.start, drain, hc] using hsame
  | popEvent =>
    simp only [perform, Party.run, Party.start, popEvent]
    split
    · exact hsame
    · exact ⟨_, rfl⟩
  | popStreamEvent owner =>
    simp only [perform, Party.run, Party.start, popStreamEvent]
    split
    · exact hsame
    · exact ⟨_, rfl⟩
  | _ => cases hk

theorem popOutbound_length (s : Session) :
    s.popOutbound.2.outbound.length = s.outbound.length - 1 := by
  rcases nextOutput_cases s with hn | ⟨f, s', hn, -, pre, post, hf, hp, -⟩
  · have he : s.outbound = [] := (nextOutput_eq_none s).mp (by rw [hn])
    simp [popOutbound, hn, he]
  · simp only [popOutbound, hn, hf, hp, List.length_append, List.length_cons]
    omega

theorem discard_eq (n : Nat) (s : Session) : ∃ last outbound resources,
    s.discard n = { s with lastOutput := last, outbound, resources } := by
  induction n generalizing s with
  | zero => exact ⟨s.lastOutput, s.outbound, s.resources, rfl⟩
  | succ n ih =>
    obtain ⟨last, outbound, hp⟩ := popOutbound_eq s
    rw [discard]
    split
    case h_1 h =>
      rw [h] at hp
      exact ⟨last, outbound, s.resources, hp⟩
    case h_2 f s' h =>
      rw [h] at hp
      simp only at hp
      obtain ⟨last', outbound', resources', hd⟩ :=
        ih { s' with resources := s'.resources.releaseOutbound f.reservation }
      exact ⟨last', outbound', resources', by rw [hd, hp]⟩

theorem discard_empty {n : Nat} (hn : s.outbound.length ≤ n) : (s.discard n).outbound = [] := by
  induction n generalizing s with
  | zero => exact List.eq_nil_of_length_eq_zero (Nat.le_zero.mp hn)
  | succ n ih =>
    have hl := popOutbound_length s
    rw [discard]
    split
    case h_1 s' h =>
      have he : s.outbound = [] := (nextOutput_eq_none s).mp (congrArg Prod.fst h)
      rw [h, he] at hl
      exact List.eq_nil_of_length_eq_zero hl
    case h_2 f s' h =>
      rw [h] at hl
      exact ih (by simp only at hl ⊢; omega)

end Session

namespace Connection

section

variable {σ γ : Type} [Cryptography γ] {c : Connection σ γ}

structure Gone (c : Connection σ γ) : Prop where
  socket : c.socket = none
  admission : c.admission = none
  handshake : c.handshake = none
  integrity : c.integrity = none
  output : c.handshakeOutput = []
  writer : c.writer = {}
  queue : ∀ s ∈ c.session, s.outbound = []

theorem release_gone (c : Connection σ γ) : c.release.Gone := by
  refine ⟨rfl, rfl, rfl, rfl, rfl, rfl, fun s hs => ?_⟩
  cases hc : c.session with
  | none => simp [release, onSession, withSession, setWriter, clearOutput, hc] at hs
  | some s₀ =>
    simp only [release, onSession, withSession, setWriter, clearOutput, hc, Option.map_some,
      Option.mem_some_iff] at hs
    exact hs ▸ Session.discard_empty le_rfl

theorem release_session {s : Session} (h : s ∈ c.release.session) :
    ∃ s₀ ∈ c.session, ∃ last outbound resources,
      s = { s₀ with lastOutput := last, outbound, resources } := by
  cases hc : c.session with
  | none => simp [release, onSession, withSession, setWriter, clearOutput, hc] at h
  | some s₀ =>
    simp only [release, onSession, withSession, setWriter, clearOutput, hc, Option.map_some,
      Option.mem_some_iff] at h
    obtain ⟨last, outbound, resources, hd⟩ := Session.discard_eq _ (s₀.setResources _)
    rw [hd] at h
    exact ⟨s₀, rfl, last, outbound, resources, h.symm⟩

structure Sound (c : Connection σ γ) : Prop where
  apart : c.handshake.isSome → c.session = none ∧ c.integrity = none
  live : c.socket.isSome → c.handshake = none → c.session.isSome ∧ c.integrity.isSome
  gone : c.socket = none → c.Gone
  shut : c.closing = true ∨ c.socket = none → ∀ s ∈ c.session, s.closed = true
  barred : c.closing = true → ∀ h ∈ c.handshake, h.closed = true ∨ h.peerVerified = false
  session : ∀ s ∈ c.session, s.Sound
  writer : c.writer.failed = false ∧ c.writer.offset ≤ c.writer.bytes.length

theorem Sound.halves (hc : c.Sound) (live : c.socket.isSome) :
    c.handshake.isSome ∧ c.session = none ∧ c.integrity = none ∨
      c.handshake = none ∧ c.session.isSome ∧ c.integrity.isSome := by
  by_cases hh : c.handshake.isSome = true
  · exact .inl ⟨hh, hc.apart hh⟩
  · have hn : c.handshake = none := by simpa using hh
    exact .inr ⟨hn, hc.live live hn⟩

theorem Sound.opened (hc : c.Sound) {h : Handshake γ} (hh : c.handshake = some h)
    (ha : h.isAuthenticated = true) : c.closing = false := by
  obtain ⟨⟨hlive, -⟩, hver⟩ : (h.closed = false ∧ h.authSent = true) ∧ h.peerVerified = true := by
    simpa [Handshake.isAuthenticated] using ha
  by_contra hopen
  rcases hc.barred (by simpa using hopen) h hh with hb | hb
  · exact Bool.false_ne_true (hlive.symm.trans hb)
  · exact Bool.false_ne_true (hb.symm.trans hver)

theorem release_sound (hs : ∀ s ∈ c.session, s.Sound ∧ s.closed = true) : c.release.Sound := by
  have hkeep : ∀ s ∈ c.release.session, s.Sound ∧ s.closed = true := by
    intro s h
    obtain ⟨s₀, h₀, last, outbound, resources, rfl⟩ := release_session h
    obtain ⟨hsound, hclosed⟩ := hs s₀ h₀
    exact ⟨⟨hsound.keyed, hsound.closed_streams, hsound.closed_pings, hsound.ids⟩, hclosed⟩
  exact ⟨nofun, nofun, fun _ => c.release_gone, fun _ s h => (hkeep s h).2, nofun,
    fun s h => (hkeep s h).1, rfl, le_rfl⟩

theorem closed_session (failure : Option Failure) (response : Option ErrorCode)
    (hs : ∀ s ∈ c.session, s.Sound) :
    ∀ s ∈ (c.onSession fun s => s.close failure response).session,
      s.Sound ∧ s.closed = true := by
  intro s h
  cases hc : c.session with
  | none => simp [onSession, withSession, hc] at h
  | some s₀ =>
    rw [onSession_some hc, Option.mem_some_iff] at h
    subst h
    exact ⟨Session.perform_sound ((hs s₀ hc).withResources c.resources) (.close failure response),
      (Session.close_keeps _ _ _).1⟩

theorem finish_sound (hs : ∀ s ∈ c.session, s.Sound) : c.finish.Sound :=
  release_sound (closed_session none none hs)

theorem abort_eq (live : c.socket.isSome) (d : Disposition) :
    c.abort d = (c.conclude d).release := by
  rw [abort, if_neg]
  simpa [Option.isSome_iff_ne_none] using live

theorem abort_gone (live : c.socket.isSome) (d : Disposition) : (c.abort d).Gone := by
  rw [abort_eq live]
  exact release_gone _

theorem abort_sound (live : c.socket.isSome) (hs : ∀ s ∈ c.session, s.Sound) (d : Disposition) :
    (c.abort d).Sound := by
  rw [abort_eq live]
  refine release_sound ?_
  unfold conclude
  split_ifs with h
  · exact closed_session _ _ hs
  all_goals
    intro s hm
    rw [show c.session = none by simpa using h] at hm
    cases hm

theorem fail_sound (hc : c.Sound) (live : c.socket.isSome)
    (hb : ∀ h ∈ c.handshake, h.closed = true ∨ h.peerVerified = false) (d : Disposition)
    (now : Instant) : (c.fail d now).Sound := by
  have hn : c.socket ≠ none := by simpa [Option.isSome_iff_ne_none] using live
  have hf := c.fail_failed d now
  generalize c.fail d now = c' at hf
  cases hf with
  | aborted => exact abort_sound live hc.session _
  | @shut code deadline safe session =>
    have hclosed := closed_session (c := { c with deadline, closing := true }.clearOutput)
      (some d.failure) (some code) hc.session
    refine ⟨fun h => ?_, fun _ h => ⟨?_, (hc.live live h).2⟩, fun h => absurd h hn,
      fun _ s h => (hclosed s h).2, fun _ => hb, fun s h => (hclosed s h).1, hc.writer⟩
    · rw [(hc.apart h).1] at session
      cases session
    · simpa [onSession, withSession, clearOutput] using session
  | silent safe session =>
    exact ⟨hc.apart, hc.live, fun h => absurd h hn, fun _ s h => absurd h (by simp [session]),
      fun _ => hb, hc.session, hc.writer⟩
  | answered safe session =>
    exact ⟨hc.apart, hc.live, fun h => absurd h hn, fun _ s h => absurd h (by simp [session]),
      fun _ => hb, hc.session, hc.writer⟩

theorem Sound.onSession (hc : c.Sound) (live : c.socket.isSome) {f : Session → Session}
    (hf : ∀ s : Session, s.Sound → (f s).Sound ∧ (s.closed = true → (f s).closed = true)) :
    (c.onSession f).Sound := by
  have hn : c.socket ≠ none := by simpa [Option.isSome_iff_ne_none] using live
  cases hs : c.session with
  | none => rwa [onSession_none hs]
  | some s =>
    obtain ⟨hsound, hclosed⟩ := hf _ ((hc.session s hs).withResources c.resources)
    rw [onSession_some hs]
    refine ⟨fun h => ?_, fun _ h => ⟨rfl, (hc.live live h).2⟩, fun h => absurd h hn,
      fun h s' h' => ?_, hc.barred, fun s' h' => ?_, hc.writer⟩
    · have := (hc.apart h).1
      rw [hs] at this
      cases this
    · obtain rfl := Option.mem_some_iff.mp h'
      exact hclosed (hc.shut h s hs)
    · obtain rfl := Option.mem_some_iff.mp h'
      exact hsound

theorem Sound.nextFrame (hc : c.Sound) (live : c.socket.isSome) {c' : Connection σ γ}
    {next : Option WireFrame} (h : c.nextFrame = (next, c')) : c'.Sound := by
  rcases c.nextFrame_cases with ⟨s, -, hn⟩ | ⟨hs, ⟨-, hn⟩ | ⟨f, rest, -, hn⟩⟩ <;>
    rw [hn] at h <;> obtain rfl := (Prod.mk.inj h).2
  · refine hc.onSession live fun s hs => ⟨Session.perform_sound hs .popOutbound, fun h => ?_⟩
    obtain ⟨last, outbound, hp⟩ := Session.popOutbound_eq s
    rw [hp]
    exact h
  · exact hc
  · have hne : c.socket ≠ none := by simpa [Option.isSome_iff_ne_none] using live
    exact ⟨hc.apart, hc.live, fun h => absurd h hne, hc.shut, hc.barred, hc.session, hc.writer⟩

theorem Sound.establish (hc : c.Sound) : c.establish.Sound := by
  rcases c.establish_cases with he | ⟨h, e, h', hh, ht, he⟩ <;> rw [he]
  · exact hc
  · have hn : c.socket ≠ none := fun hn => by
      rw [(hc.gone hn).handshake] at hh
      cases hh
    have hopen : c.closing = false := by
      by_contra hclosing
      have hb := hc.barred (by simpa using hclosing) h hh
      rcases h.takeEstablished_cases with hz | ⟨r, id, keys, ha, -⟩
      · rw [hz] at ht
        cases ht
      · simp only [Handshake.isAuthenticated, Bool.and_eq_true, Bool.not_eq_true'] at ha
        rcases hb with hb | hb <;> simp [hb] at ha
    refine ⟨nofun, fun _ _ => ⟨rfl, rfl⟩, fun h => absurd h hn, fun h => ?_, fun _ => nofun,
      fun s hs => ?_, hc.writer⟩
    · simp only [hopen, Bool.false_eq_true, hn, or_self] at h
    · obtain rfl := Option.mem_some_iff.mp hs
      exact (Session.Fresh.sound ⟨c.handle, e.localIdentity, e.peerIdentity, c.resources, rfl⟩).1

theorem Sound.stage (hc : c.Sound) (live : c.socket.isSome) (handshake : Option (Handshake γ))
    (integrity : Option (Integrity (IntegrityKey γ)))
    (writing : Option (FrameType × UInt32 × FrameProtection))
    (hh : handshake.isSome = c.handshake.isSome) (hi : integrity.isSome = c.integrity.isSome)
    (hb : c.closing = true → ∀ h ∈ handshake, h.closed = true ∨ h.peerVerified = false) :
    ({ c with handshake, integrity, writing } : Connection σ γ).Sound := by
  have hn : c.socket ≠ none := by simpa [Option.isSome_iff_ne_none] using live
  refine ⟨fun h => ?_, fun _ h => ?_, fun h => absurd h hn, hc.shut, hb, hc.session, hc.writer⟩
  · obtain ⟨hs, hk⟩ := hc.apart (hh ▸ h)
    refine ⟨hs, ?_⟩
    rw [hk] at hi
    simpa using hi
  · have hnone : c.handshake = none := by
      rw [show handshake = none from h] at hh
      simpa using hh.symm
    obtain ⟨hs, hk⟩ := hc.live live hnone
    exact ⟨hs, hi.trans hk⟩

theorem Sound.sent (hc : c.Sound) (live : c.socket.isSome) (kind : FrameType) (id : UInt32) :
    (c.onSession (·.sent kind id)).Sound :=
  hc.onSession live fun s hs => ⟨Session.perform_sound hs (.sent kind id), fun h => by
    rw [(Session.sent_keeps s kind id).closed, h]⟩

theorem barred_close (h : Handshake γ) :
    ∀ g ∈ some h.close, g.closed = true ∨ g.peerVerified = false := by
  intro g hg
  obtain rfl := Option.mem_some_iff.mp hg
  exact .inl rfl

theorem Sound.written (hc : c.Sound) (live : c.socket.isSome) (now : Instant) :
    (c.written now).2.Sound := by
  have hw := c.written_written now
  generalize (c.written now).2 = c' at hw
  cases hw with
  | unknown => exact hc
  | unsent => exact abort_sound (by exact live) (by exact hc.session) _
  | @rejected kind id h e writing opened handshake failed =>
    have hst := hc.stage live (some h.close) c.integrity none (by rw [handshake]; rfl) rfl
      fun _ => barred_close h
    exact fail_sound hst live (barred_close h) _ now
  | @sealed kind id integrity writing keys =>
    have hst := hc.stage live c.handshake integrity none rfl
      (by rcases keys with ⟨h₁, h₂⟩ | ⟨i, i', h₁, h₂, -⟩ <;> simp [h₁, h₂]) hc.barred
    exact hst.sent live kind id
  | @plain kind id writing past =>
    exact (hc.stage live c.handshake c.integrity none rfl rfl hc.barred).sent live kind id
  | @sent kind id h h' writing opened handshake done =>
    have hst := hc.stage live (some h') c.integrity none (by rw [handshake]; rfl) rfl
      fun h => by simp [opened] at h
    exact hst.sent live kind id

theorem settle_sound (hc : c.Sound) (live : c.socket.isSome) (now : Instant) :
    (c.settle now).Sound := by
  have hn : c.socket ≠ none := by simpa [Option.isSome_iff_ne_none] using live
  by_cases hany : c.session.any Session.closed = true
  · obtain ⟨s₀, hs₀, hclosed⟩ : ∃ s, c.session = some s ∧ s.closed = true := by
      cases hs : c.session with
      | none => simp [hs] at hany
      | some s => exact ⟨s, rfl, by simpa [hs] using hany⟩
    have hall : ∀ s ∈ c.session, s.closed = true := by
      intro s hs
      obtain rfl := Option.some.inj (hs₀.symm.trans hs)
      exact hclosed
    rw [settle, if_pos hany]
    split_ifs with hb
    · exact release_sound fun s hs => ⟨hc.session s hs, hall s hs⟩
    · refine ⟨hc.apart, hc.live, fun h => absurd h hn, fun _ => hall, fun _ h hh => ?_,
        hc.session, hc.writer⟩
      have hnone := (hc.apart (by rw [Option.mem_def.mp hh]; rfl)).1
      rw [hs₀] at hnone
      cases hnone
  · rwa [settle, if_neg hany]

theorem isSome_of_eq {α : Type} {o : Option α} {a : α} (h : o = some a) : o.isSome = true := by
  rw [h]
  rfl

theorem Sound.unverified (hc : c.Sound) (keyed : ¬ (c.receivePhase = .tagged ∧ c.integrity.isNone))
    {h : Handshake γ} (hh : c.handshake = some h) : h.peerVerified = false := by
  have hi := (hc.apart (isSome_of_eq hh)).2
  simp only [receivePhase, hh, hi, Handshake.receiveProtection] at keyed
  by_contra hv
  simp [hv] at keyed

theorem Sound.setWriter (hc : c.Sound) (live : c.socket.isSome) (socket : σ)
    (writer : FrameWriter)
    (hw : writer.failed = false ∧ writer.offset ≤ writer.bytes.length) :
    ({ c with socket := some socket }.setWriter writer).Sound :=
  ⟨hc.apart, fun _ => hc.live live, nofun, fun h => hc.shut (.inl (h.resolve_right nofun)),
    hc.barred, hc.session, hw⟩

theorem Sound.record (hc : c.Sound) (resources : Resources) (handle : ConnectionHandle)
    (events : List Event) (traffic : Traffic σ) :
    ({ c with resources, handle, events, traffic } : Connection σ γ).Sound :=
  ⟨hc.apart, hc.live, fun h => have g := hc.gone h
    ⟨g.socket, g.admission, g.handshake, g.integrity, g.output, g.writer, g.queue⟩,
    hc.shut, hc.barred, hc.session, hc.writer⟩

theorem Sound.polled (hc : c.Sound) (live : c.socket.isSome) (reader : FrameReader) (socket : σ) :
    (c.polled reader socket).Sound :=
  ⟨hc.apart, fun _ => hc.live live, nofun, fun h => hc.shut (.inl (h.resolve_right nofun)),
    hc.barred, hc.session, hc.writer⟩

variable {ι : Type} [Identity ι]

theorem Sound.deliver (hc : c.Sound) (live : c.socket.isSome) (opened : c.closing = false)
    (f : WireFrame) (now : Instant) (registry : Registry) (identity : ι) (crypto : γ) :
    (c.deliver f now registry identity crypto).1.Sound := by
  have hd := c.deliver_delivered f now registry identity crypto
  generalize (c.deliver f now registry identity crypto).1 = c' at hd
  have hopen : ∀ {P : Prop}, c.closing = true → P := fun h => by simp [opened] at h
  cases hd with
  | unkeyed => exact hc
  | @answered h h' auth identity' crypto' lease resources handshake =>
    have hst := hc.stage live (some h') c.integrity c.writing (by rw [handshake]; rfl) rfl hopen
    have hn : c.socket ≠ none := by simpa [Option.isSome_iff_ne_none] using live
    exact ⟨hst.apart, hst.live, fun h => absurd h hn, hst.shut, hst.barred, hst.session, hst.writer⟩
  | crowded => exact abort_sound (by exact live) (by exact hc.session) _
  | @verified h h' identity' crypto' handshake =>
    exact hc.stage live (some h') c.integrity c.writing (by rw [handshake]; rfl) rfl hopen
  | @rejected h e handshake =>
    have hst := hc.stage live (some h.close) c.integrity c.writing (by rw [handshake]; rfl) rfl
      fun _ => barred_close h
    exact fail_sound hst live (barred_close h) _ now
  | forged => exact abort_sound (by exact live) (by exact hc.session) _
  | @taken i i' verified handshake keys ok =>
    have hst := hc.stage live c.handshake (some i') c.writing rfl (by rw [keys]; rfl) hc.barred
    refine settle_sound (hst.onSession live fun s hs =>
      ⟨Session.perform_sound hs (.receive verified registry now), fun h => ?_⟩) live now
    show (s.receive verified registry now).2.closed = true
    simp only [Session.receive, h, if_true]

theorem Sound.close (hc : c.Sound) : c.close.Sound := by
  by_cases hs : c.socket.isNone = true
  · rwa [Connection.close, abort, if_pos hs]
  · exact abort_sound (by simpa [Option.isSome_iff_ne_none] using hs) hc.session _

theorem Sound.request (hc : c.Sound) {call : Call} (hk : call.isStream = true) :
    (c.request call).Sound := by
  cases hs : c.session with
  | none => rwa [Connection.request, onSession_none hs]
  | some s =>
    cases hsock : c.socket with
    | some socket =>
      refine hc.onSession (isSome_of_eq hsock) fun s hs => ⟨Session.perform_sound hs call, fun h => ?_⟩
      obtain ⟨events, he⟩ := Session.perform_closed h hk
      rw [he]
      exact h
    | none =>
      have hclosed := hc.shut (.inr hsock) s hs
      have hgone := hc.gone hsock
      have hsound := hc.session s hs
      obtain ⟨events, he⟩ := Session.perform_closed (s := s.setResources c.resources) hclosed hk
      have hreq : c.request call =
          { c with session := some { s with resources := c.resources, events } } := by
        rw [Connection.request, onSession_some hs, he]
        rfl
      rw [hreq]
      refine ⟨fun h => ?_, fun h => ?_, fun _ => ⟨hgone.socket, hgone.admission, hgone.handshake,
        hgone.integrity, hgone.output, hgone.writer, fun t ht => ?_⟩, fun _ t ht => ?_, hc.barred,
        fun t ht => ?_, hc.writer⟩
      · exact absurd h (by simp [hgone.handshake])
      · exact absurd h (by simp [hgone.socket])
      all_goals obtain rfl := Option.mem_some_iff.mp ht
      · exact hgone.queue s hs
      · exact hclosed
      · exact ⟨hsound.keyed, hsound.closed_streams, hsound.closed_pings, hsound.ids⟩

theorem popEvent_eq (c : Connection σ γ) :
    (∃ events, c.popEvent.2 = { c with events }) ∨ c.popEvent.2 = c.request .popEvent := by
  cases he : c.events with
  | cons e rest => exact .inl ⟨rest, by simp only [popEvent, he]⟩
  | nil =>
    refine .inr ?_
    simp only [popEvent, he, request, onSession, withSession]
    cases c.session <;> rfl

theorem Sound.popEvent (hc : c.Sound) : c.popEvent.2.Sound := by
  rcases c.popEvent_eq with ⟨events, he⟩ | he <;> rw [he]
  · exact hc.record c.resources c.handle events c.traffic
  · exact hc.request rfl

theorem Sound.world (hc : c.Sound) (socket : σ) (resources : Resources) :
    ({ c with socket := c.socket.map fun _ => socket, resources } : Connection σ γ).Sound := by
  have hnone : ∀ h : c.socket.map (fun _ => socket) = none, c.socket = none :=
    fun h => Option.map_eq_none_iff.mp h
  refine ⟨hc.apart, fun h => hc.live (by simpa using h), fun h => ?_,
    fun h => hc.shut (h.imp_right hnone), hc.barred, hc.session, hc.writer⟩
  have g := hc.gone (hnone h)
  exact ⟨h, g.admission, g.handshake, g.integrity, g.output, g.writer, g.queue⟩

theorem beginShared_ok {socket : σ} {options : Options} {config : TransportConfig} {now : Instant}
    {identity : ι} {crypto crypto' : γ} {resources resources' : Resources}
    {handle : ConnectionHandle}
    (h : beginShared socket options config now identity crypto resources handle =
      (.ok c, resources', crypto')) :
    ∃ r₁ admission hello deadline handshake frame, resources.connection = some (admission, r₁) ∧
      r₁.outbound 112 = some (hello, resources') ∧
      Handshake.begin options.role options.expectedPeer identity crypto =
        (.ok (handshake, frame), crypto') ∧
      c = { resources := resources', admission := some admission, handle, socket := some socket
            handshake := some handshake
            handshakeOutput := [{ frame with reservation := some hello }]
            deadline, timeout := config.handshakeTimeout } := by
  unfold beginShared at h
  split at h
  case h_1 => cases h
  case h_2 admission r₁ hadm =>
  split at h
  case h_1 => cases h
  case h_2 hello r₂ hroom =>
  split at h
  case h_1 => cases h
  case h_2 deadline _ =>
  split at h
  case h_1 => cases h
  case h_2 handshake frame crypto₁ hb =>
    simp only [Prod.mk.injEq, Except.ok.injEq] at h
    obtain ⟨rfl, rfl, rfl⟩ := h
    exact ⟨r₁, admission, hello, deadline, handshake, frame, hadm, hroom, hb, rfl⟩

theorem Sound.begin {socket : σ} {options : Options} {config : TransportConfig} {now : Instant}
    {identity : ι} {crypto crypto' : γ} {resources resources' : Resources}
    {handle : ConnectionHandle}
    (h : beginShared socket options config now identity crypto resources handle =
      (.ok c, resources', crypto')) : c.Sound := by
  obtain ⟨_, _, _, _, _, _, -, -, -, rfl⟩ := beginShared_ok h
  refine ⟨fun _ => ⟨rfl, rfl⟩, nofun, nofun, fun _ s h => ?_, fun h => ?_, fun s h => ?_, rfl,
    Nat.le_refl 0⟩ <;> cases h

end

variable {σ γ ι : Type} [Socket σ] [Cryptography γ] [Identity ι] {c c' : Connection σ γ}

theorem Sound.move (hc : c.Sound) (h : Move ι c c') : c'.Sound := by
  cases h with
  | tick live now =>
    exact hc.onSession live fun s hs => ⟨Session.perform_sound hs (.tick now), id⟩
  | idle live empty => exact hc.nextFrame live empty
  | drained live free empty closing =>
    have hn := hc.nextFrame live empty
    obtain ⟨_, _, _, rfl⟩ := nextFrame_eq empty
    exact release_sound fun s hs => ⟨hn.session s hs, hn.shut (.inl closing) s hs⟩
  | admitted live free next start =>
    have hn := hc.nextFrame live next
    obtain ⟨_, _, _, rfl⟩ := nextFrame_eq next
    cases start with
    | @started integrity frame phase hl hi shape lease same mode =>
      have hkeys : integrity.isSome = c.integrity.isSome := by
        rcases mode with ⟨-, h₁, h₂, -⟩ | ⟨-, i, i', h₁, h₂, -⟩
        · rw [h₂, show c.integrity = none from h₁]
        · rw [h₂, show c.integrity = some i from h₁]
          rfl
      have hst := hn.stage live c.handshake integrity none rfl hkeys hn.barred
      have hne : c.socket ≠ none := by simpa [Option.isSome_iff_ne_none] using live
      exact ⟨hst.apart, hst.live, fun h => absurd h hne, hst.shut, hst.barred, hst.session,
        hl, Nat.zero_le _⟩
  | refused live free next start =>
    have hn := hc.nextFrame live next
    obtain ⟨_, _, _, rfl⟩ := nextFrame_eq next
    cases start with
    | unsealed => exact abort_sound (by exact live) (by exact hn.session) _
    | unstarted => exact abort_sound (by exact live) (by exact hn.session) _
  | @flushed socket socket' writer live busy flush =>
    have hp := FrameWriter.pollFlush_polled (s := socket) hc.writer.1 hc.writer.2
    rw [flush] at hp
    cases hp with
    | @pending output rest _ put bytes =>
      have hl := congrArg List.length bytes
      have ho := hc.writer.2
      simp only [List.length_drop, List.length_append] at hl
      exact hc.setWriter (isSome_of_eq live) _ _ ⟨hc.writer.1, by simp only; omega⟩
  | broken live busy flush => exact abort_sound rfl (by exact hc.session) _
  | @written socket socket' writer now live busy flush =>
    have hp := FrameWriter.pollFlush_polled (s := socket) hc.writer.1 hc.writer.2
    rw [flush] at hp
    cases hp with
    | done put =>
      have hs := hc.setWriter (isSome_of_eq live) socket'
        { c.writer with reservation := none, bytes := [], offset := 0 } ⟨hc.writer.1, le_rfl⟩
      exact hs.written rfl now
  | establish => exact hc.establish
  | waiting live opened keyed poll => exact hc.polled (isSome_of_eq live) _ _
  | @faulted socket socket' reader e now live opened keyed poll =>
    have hp := hc.polled (isSome_of_eq live) reader socket'
    exact fail_sound (c := (c.polled reader socket').faulted e) (hp.record _ _ _ _) rfl
      (fun h hh => .inr (hc.unverified keyed hh)) _ now
  | ended live opened keyed poll =>
    simp only [Connection.ended]
    split_ifs
    · exact finish_sound (by exact hc.session)
    · exact abort_sound rfl (by exact hc.session) _
  | @delivered socket socket' reader f now registry identity crypto live opened keyed poll =>
    have hp := hc.polled (isSome_of_eq live) reader socket'
    exact Sound.deliver (c := (c.polled reader socket').heard f) (hp.record _ _ _ _) rfl opened f now
      registry identity crypto
  | finish ready => exact finish_sound hc.session
  | expired live late timed => exact abort_sound live hc.session _

theorem Sound.moves (hc : c.Sound) (h : Moves ι c c') : c'.Sound := by
  induction h with
  | refl => exact hc
  | tail _ h ih => exact ih.move h

variable (σ γ ι) in
/-- One operation on a connection, or a change outside it: the network moves bytes and
other connections use the shared counters. -/
inductive Op
  | poll (now : Instant) (registry : Registry) (identity : ι) (crypto : γ)
  | close
  | request (call : Call)
  | popEvent
  | setHandle (handle : ConnectionHandle)
  | world (socket : σ) (outbound connections : Nat)

def Op.Offered : Op σ γ ι → Prop
  | .request call => call.isStream = true
  | _ => True

def run (c : Connection σ γ) : Op σ γ ι → Connection σ γ
  | .poll now registry identity crypto => (c.poll now registry identity crypto).2.1
  | .close => c.close
  | .request call => c.request call
  | .popEvent => c.popEvent.2
  | .setHandle handle => c.setHandle handle
  | .world socket outbound connections =>
    { c with
      socket := c.socket.map fun _ => socket
      resources := { c.resources with outboundUsed := outbound, connectionsUsed := connections } }

theorem Sound.run (hc : c.Sound) {op : Op σ γ ι} (ho : op.Offered) : (c.run op).Sound := by
  cases op with
  | poll now registry identity crypto => exact hc.moves (poll_moves c now registry identity crypto)
  | close => exact hc.close
  | request call => exact hc.request ho
  | popEvent => exact hc.popEvent
  | setHandle handle => exact hc.record c.resources handle c.events c.traffic
  | world socket outbound connections => exact hc.world socket _

/-- Runs from a connection as `begin` returns it, of operations that meet `allowed`. -/
def Run (allowed : Connection σ γ → Op σ γ ι → Prop) (c : Connection σ γ) : Prop :=
  ∃ c₀ socket options config now, ∃ (identity : ι), ∃ crypto crypto' resources resources' handle,
    beginShared socket options config now identity crypto resources handle =
      (.ok c₀, resources', crypto') ∧
    ReflTransGen (fun c c' => ∃ op : Op σ γ ι, op.Offered ∧ allowed c op ∧ c' = c.run op) c₀ c

theorem Run.ops {allowed : Connection σ γ → Op σ γ ι → Prop} (hr : Run allowed c)
    (ops : List (Op σ γ ι)) (ho : ∀ op ∈ ops, op.Offered ∧ ∀ c, allowed c op) :
    Run allowed (ops.foldl Connection.run c) := by
  induction ops generalizing c with
  | nil => exact hr
  | cons op ops ih =>
    obtain ⟨c₀, socket, options, config, now, identity, crypto, crypto', resources, resources',
      handle, hb, hrun⟩ := hr
    obtain ⟨hoff, hall⟩ := ho op List.mem_cons_self
    exact ih ⟨c₀, socket, options, config, now, identity, crypto, crypto', resources, resources',
      handle, hb, hrun.tail ⟨op, hoff, hall c, rfl⟩⟩ fun op h => ho op (List.mem_cons_of_mem _ h)

end Connection

/-- A socket with some bytes to read, which takes all output or none. -/
structure Script where
  input : List UInt8 := []
  blocked : Bool := false

instance : Socket Script where
  pollRead s room :=
    if s.input = [] then (.pending, s)
    else (.ready (.ok (s.input.take room)), { s with input := s.input.drop room })
  pollWrite s bytes := (if s.blocked then .pending else .ready (.ok bytes.length), s)

def Script.bytes (kind : FrameType) (id : UInt32) (payload : List UInt8)
    (phase : FrameProtection) : List UInt8 :=
  match FrameHeader.new kind id (UInt32.ofNat payload.length) with
  | .error _ => []
  | .ok header => header.encode ++ payload ++ List.replicate phase.overhead 0

namespace Connection

abbrev SampleOp := Op Script MockCrypto MockIdentity

/-- An accepted socket under limits for two connections of two streams, to run the model on. -/
def sampleBegin : Except Disposition (Connection Script MockCrypto) × Resources × MockCrypto :=
  beginShared {} ⟨.acceptor, .unpinned⟩ ⟨⟨2, 2, maxFrameBytes, maxPayloadBytes⟩, 10⟩ 0
    (MockIdentity.mk (.replicate 32 1)) { entropy := .replicate 32 1 : MockCrypto }
    { limits := ⟨2, 2, maxFrameBytes, maxPayloadBytes⟩ } ⟨⟨0⟩⟩

theorem sampleBegin_run {allowed : Connection Script MockCrypto → SampleOp → Prop}
    {c : Connection Script MockCrypto} (h : sampleBegin.1 = .ok c) : Run allowed c :=
  ⟨c, {}, _, _, _, _, _, _, _, _, _, Prod.ext h rfl, .refl⟩

def samplePoll (now : Instant) : SampleOp :=
  .poll now Registry.sample ⟨.replicate 32 1⟩ { entropy := .replicate 32 1 }

def sampleHandshake : List SampleOp :=
  [.world ⟨Script.bytes .hello 0
      (Hello.mk (.replicate 32 2) (.replicate 32 2) (.replicate 32 2)).encode .untagged ++
      Script.bytes .auth 0 (List.replicate 64 0) .untagged, false⟩ 112 1, samplePoll 0]

theorem sample_after {α : Type} (ops : List SampleOp) (f : Connection Script MockCrypto → α)
    {a : α} (h : (sampleBegin.1.toOption.map fun c => f (ops.foldl run c)) = some a) :
    ∃ c, sampleBegin.1 = .ok c ∧ f (ops.foldl run c) = a := by
  cases hb : sampleBegin.1 with
  | error e => simp [hb, Except.toOption] at h
  | ok c => exact ⟨c, rfl, by simpa [hb, Except.toOption] using h⟩

end Connection

end TalkSphere
