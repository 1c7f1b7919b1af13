import TalkSphere.ConnectionSound
import TalkSphere.SessionActs

/-! When a closed session gives up its socket. A session closed by a frame, a failure or
the connection itself leaves the connection closing, with a deadline. A session closed by
a cancel that found no room for its own frame does not. -/

namespace TalkSphere

open Relation (ReflTransGen)

def cancelBytes : Nat := 32

def Session.Affords (s : Session) : Call → Prop
  | .cancel owner stream reason =>
    s.closed = false → stream.authorize s.handle.id owner = .ok () →
      s.streams.contains stream.wireId = true →
      (s.terminate stream.wireId (.cancelled .local_ reason)).resources.outboundUsed +
        cancelBytes ≤ s.resources.limits.outboundBytes
  | _ => True

namespace Session

variable {s : Session}

theorem perform_open (hv : s.ids.Valid) {call : Call} (hk : call.isStream = true)
    (ha : s.Affords call) : (s.perform call).closed = s.closed := by
  have hturn := perform_turn hv call
  generalize s.perform call = s' at hturn ⊢
  cases hturn with
  | worked works | pinged works => exact works.keeps.closed
  | @overfull owner stream reason lacks =>
    obtain ⟨live, authorized, ⟨state, found⟩, full⟩ := lacks
    have hin : s.streams.contains stream.wireId = true := by
      rw [Std.TreeMap.contains_eq_isSome_getElem?, found]
      rfl
    have hroom := ha live authorized hin
    rw [Resources.outbound_eq_none, ErrorPayload.encode, Diagnostic.encode_blank_length,
      (terminate_keeps s stream.wireId _).limits] at full
    simp only [cancelBytes, queuedOverhead] at hroom full
    omega
  | ticked | read | taken | lent => rfl
  | sent | received | closed => cases hk

end Session

namespace Connection

section

variable {σ γ : Type} [Cryptography γ] {c c' : Connection σ γ}

def Guarded (c : Connection σ γ) : Prop :=
  c.socket.isSome → ∀ s ∈ c.session, s.closed = true → c.closing = true

theorem Gone.guarded (h : c.Gone) : c.Guarded := fun hs => by simp [h.socket] at hs

theorem Guarded.of_closing (h : c.closing = true) : c.Guarded := fun _ _ _ _ => h

theorem Guarded.onSession (hg : c.Guarded) {f : Session → Session}
    (hf : ∀ s, s ∈ c.session → (f (s.setResources c.resources)).closed = s.closed) :
    (c.onSession f).Guarded := by
  cases hs : c.session with
  | none => rwa [onSession_none hs]
  | some s =>
    rw [onSession_some hs]
    intro live t ht hclosed
    obtain rfl := Option.mem_some_iff.mp ht
    rw [hf s hs] at hclosed
    exact hg live s hs hclosed

theorem Failed.guarded {d : Disposition} (live : c.socket.isSome) (h : Failed c d c') :
    c'.Guarded := by
  cases h with
  | aborted => exact (abort_gone live _).guarded
  | shut => exact .of_closing rfl
  | silent => exact .of_closing rfl
  | answered => exact .of_closing rfl

theorem settle_guarded (now : Instant) : (c.settle now).Guarded := by
  unfold settle
  split_ifs with hany hb
  · exact (release_gone _).guarded
  · exact .of_closing rfl
  · intro _ s hs hclosed
    rw [Option.mem_def.mp hs] at hany
    exact absurd hclosed hany

theorem Guarded.nextFrame (hg : c.Guarded) {next : Option WireFrame}
    (h : c.nextFrame = (next, c')) : c'.Guarded := by
  rcases c.nextFrame_cases with ⟨s, -, hn⟩ | ⟨hs, ⟨-, hn⟩ | ⟨f, rest, -, hn⟩⟩ <;>
    rw [hn] at h <;> obtain rfl := (Prod.mk.inj h).2
  · refine hg.onSession fun s _ => ?_
    obtain ⟨last, outbound, hp⟩ := Session.popOutbound_eq (s.setResources c.resources)
    rw [hp]
    rfl
  · exact hg
  · exact hg

theorem Guarded.sent (hg : c.Guarded) (kind : FrameType) (id : UInt32) :
    (c.onSession (·.sent kind id)).Guarded :=
  hg.onSession fun s _ => (Session.sent_keeps (s.setResources c.resources) kind id).closed

end

variable {σ γ ι : Type} [Socket σ] [Cryptography γ] [Identity ι] {c c' : Connection σ γ}

theorem Guarded.move (hg : c.Guarded) (h : Move ι c c') : c'.Guarded := by
  cases h with
  | tick live now => exact hg.onSession fun s _ => rfl
  | idle live empty => exact hg.nextFrame empty
  | drained => exact (release_gone _).guarded
  | admitted live free next start =>
    have hn := hg.nextFrame next
    cases start
    exact hn
  | refused live free next start =>
    obtain ⟨_, _, _, rfl⟩ := nextFrame_eq next
    cases start
    · exact (abort_gone (by exact live) _).guarded
    · exact (abort_gone (by exact live) _).guarded
  | flushed live busy flush => exact fun _ => hg (isSome_of_eq live)
  | broken => exact (abort_gone rfl _).guarded
  | @written socket socket' writer now live busy flush =>
    have hg' : ({ c with socket := some socket' }.setWriter writer).Guarded :=
      fun _ => hg (isSome_of_eq live)
    have hw := ({ c with socket := some socket' }.setWriter writer).written_written now
    generalize (({ c with socket := some socket' }.setWriter writer).written now).2 = c' at hw
    cases hw with
    | unknown => exact hg'
    | unsent => exact (abort_gone rfl _).guarded
    | rejected => exact (fail_failed _ _ now).guarded rfl
    | @sealed kind id => exact Guarded.sent (by exact hg') kind id
    | @plain kind id => exact Guarded.sent (by exact hg') kind id
    | @sent kind id => exact Guarded.sent (by exact hg') kind id
  | establish =>
    rcases c.establish_cases with he | ⟨h, e, h', hh, ht, he⟩ <;> rw [he]
    · exact hg
    · intro _ s hs hclosed
      obtain rfl := Option.mem_some_iff.mp hs
      cases hclosed
  | waiting live => exact fun _ => hg (isSome_of_eq live)
  | faulted now => exact (fail_failed _ _ now).guarded rfl
  | ended =>
    simp only [Connection.ended]
    split_ifs
    · exact (release_gone _).guarded
    · exact (abort_gone rfl _).guarded
  | @delivered socket socket' reader f now registry identity crypto live opened keyed poll =>
    have hg' : ((c.polled reader socket').heard f).Guarded := fun _ => hg (isSome_of_eq live)
    have hd := ((c.polled reader socket').heard f).deliver_delivered f now registry identity crypto
    generalize (((c.polled reader socket').heard f).deliver f now registry identity crypto).1 = c'
      at hd
    cases hd with
    | unkeyed => exact hg'
    | answered => exact hg'
    | crowded => exact (abort_gone rfl _).guarded
    | verified => exact hg'
    | rejected => exact (fail_failed _ _ now).guarded rfl
    | forged => exact (abort_gone rfl _).guarded
    | taken => exact settle_guarded now
  | finish => exact (release_gone _).guarded
  | expired live => exact (abort_gone live _).guarded

theorem Guarded.moves (hg : c.Guarded) (h : Moves ι c c') : c'.Guarded := by
  induction h with
  | refl => exact hg
  | tail _ h ih => exact ih.move h

def Affords (c : Connection σ γ) : Op σ γ ι → Prop
  | .request call => ∀ s ∈ c.session, (s.setResources c.resources).Affords call
  | _ => True

theorem Guarded.run (hg : c.Guarded) (hc : c.Sound) {op : Op σ γ ι} (ho : op.Offered)
    (ha : c.Affords op) : (c.run op).Guarded := by
  have hrequest : ∀ {call : Call}, call.isStream = true →
      (∀ s ∈ c.session, (s.setResources c.resources).Affords call) → (c.request call).Guarded :=
    fun hk ha => hg.onSession fun s hs =>
      Session.perform_open ((hc.session s hs).withResources c.resources).ids hk (ha s hs)
  cases op with
  | poll now registry identity crypto => exact hg.moves (poll_moves c now registry identity crypto)
  | close =>
    by_cases hs : c.socket.isNone = true
    · rwa [Connection.run, Connection.close, abort, if_pos hs]
    · exact (abort_gone (by simpa [Option.isSome_iff_ne_none] using hs) _).guarded
  | request call => exact hrequest ho ha
  | popEvent =>
    rcases c.popEvent_eq with ⟨events, he⟩ | he <;> rw [Connection.run, he]
    · exact hg
    · exact hrequest rfl fun _ _ => trivial
  | setHandle handle => exact hg
  | world socket outbound connections => exact fun live => hg (by simpa [Connection.run] using live)

theorem Run.guarded (h : Run (ι := ι) Affords c) : c.Guarded := by
  obtain ⟨c₀, socket, options, config, now, identity, crypto, crypto', resources, resources',
    handle, hb, hr⟩ := h
  have hinv : c.Sound ∧ c.Guarded := by
    induction hr with
    | refl =>
      refine ⟨.begin hb, ?_⟩
      obtain ⟨_, _, _, _, _, _, -, -, -, rfl⟩ := beginShared_ok hb
      intro _ s hs
      cases hs
    | tail _ hstep ih =>
      obtain ⟨op, ho, ha, rfl⟩ := hstep
      exact ⟨ih.1.run ho, ih.2.run ih.1 ho ha⟩
  exact hinv.2

theorem turn_socket (c : Connection σ γ) (now : Instant) (registry : Registry) (identity : ι)
    (crypto : γ) :
    (c.turn now registry identity crypto).1 = some (.ready ()) ∨
      (c.turn now registry identity crypto).2.1.socket.isSome := by
  have hend : ∀ (c : Connection σ γ) progressed, (c.turnEnd progressed).1 = some (.ready ()) ∨
      (c.turnEnd progressed).2.socket.isSome := by
    intro c progressed
    simp only [turnEnd]
    generalize (if c.establish.readyToClose then c.establish.finish else c.establish) = c'
    split_ifs with hs
    · exact .inl rfl
    · exact .inr (by simpa [Option.isSome_iff_ne_none] using hs)
    · exact .inr (by simpa [Option.isSome_iff_ne_none] using hs)
  simp only [turn]
  split_ifs
  · exact .inl rfl
  · exact hend _ _
  · exact hend _ _

theorem turns_socket (now : Instant) (registry : Registry) (n : Nat) {c : Connection σ γ}
    (live : c.socket.isSome) (identity : ι) (crypto : γ)
    (h : (turns now registry n c identity crypto).1 = .pending) :
    (turns now registry n c identity crypto).2.1.socket.isSome := by
  induction n generalizing c identity crypto with
  | zero => exact live
  | succ n ih =>
    have ht := turn_socket c now registry identity crypto
    rw [turns] at h ⊢
    split at h
    case h_1 answer rest he =>
      simp only at h
      subst h
      simp only [he] at ht ⊢
      simpa using ht
    case h_2 c₁ identity₁ crypto₁ he =>
      simp only [he] at ht ⊢
      exact ih (by simpa using ht) identity₁ crypto₁ h

theorem poll_pending {now : Instant} {registry : Registry} {identity : ι} {crypto : γ}
    (h : (c.poll now registry identity crypto).1 = .pending) :
    (c.poll now registry identity crypto).2.1.socket.isSome := by
  unfold poll at h ⊢
  split_ifs at h ⊢ with hs hd
  have live : c.socket.isSome := by simpa [Option.isSome_iff_ne_none] using hs
  exact turns_socket now registry 32 (by exact live) identity crypto h

theorem poll_expired {now : Instant} {registry : Registry} {identity : ι} {crypto : γ}
    (live : c.socket.isSome) (closing : c.closing = true) (late : c.deadline ≤ now) :
    (c.poll now registry identity crypto).1 = .ready () ∧
      (c.poll now registry identity crypto).2.1.Gone := by
  have hs : ¬ c.socket.isNone = true := by simpa [Option.isSome_iff_ne_none] using live
  have hd : ((c.handshake.isSome || c.closing) && decide (c.deadline ≤ now)) = true := by
    simp [closing, late]
  simp only [poll, if_neg hs, if_pos hd]
  exact ⟨trivial, abort_gone live _⟩

/-- In every run whose cancels find room for their frame, a poll that leaves the session
closed has released the socket or leaves a deadline, at which the next poll releases it
whatever the socket, the peer and the other connections do. -/
theorem closed_session_released (hr : Run (ι := ι) Affords c) {now : Instant} {registry : Registry}
    {identity : ι} {crypto : γ} (hp : (c.poll now registry identity crypto).1 = .pending)
    {s : Session} (hs : (c.poll now registry identity crypto).2.1.session = some s)
    (hc : s.closed = true) :
    let c' := (c.poll now registry identity crypto).2.1
    c'.closing = true ∧ c'.nextDeadline = some c'.deadline ∧
      ∀ (later : Instant) (socket : σ) (outbound connections : Nat) (registry : Registry)
        (identity : ι) (crypto : γ), c'.deadline ≤ later →
        let out := (c'.run (.world socket outbound connections : Op σ γ ι)).poll later registry
          identity crypto
        out.1 = .ready () ∧ out.2.1.Gone := by
  have live := poll_pending hp
  have hg := hr.guarded.moves (poll_moves c now registry identity crypto)
  have hclosing := hg live s hs hc
  refine ⟨hclosing, ?_, fun later socket outbound connections registry identity crypto late =>
    poll_expired (by simpa [Connection.run] using live) hclosing late⟩
  have hnone : ¬ (c.poll now registry identity crypto).2.1.socket.isNone = true := by
    simpa [Option.isSome_iff_ne_none] using live
  rw [nextDeadline, if_neg hnone, if_pos (by simp [hclosing])]

def sampleViolation : List SampleOp :=
  sampleHandshake ++ [.world ⟨Script.bytes .data 1 [0] .tagged, true⟩ 0 1]

theorem closed_session_released_violation : ∃ c, sampleBegin.1 = .ok c ∧
    let c := sampleViolation.foldl run c
    let out := c.poll 1 Registry.sample (MockIdentity.mk (.replicate 32 1))
      { entropy := .replicate 32 1 : MockCrypto }
    out.1 = .pending ∧ out.2.1.nextDeadline = some 11 := by
  obtain ⟨c, hb, hf⟩ := sample_after sampleViolation (fun c =>
    let out := c.poll 1 Registry.sample (MockIdentity.mk (.replicate 32 1))
      { entropy := .replicate 32 1 : MockCrypto }
    (out.1, out.2.1.session.map Session.closed, out.2.1.deadline))
    (a := (.pending, some true, 11)) (by decide +kernel)
  obtain ⟨hp, hs, hd⟩ : _ ∧ _ ∧ _ := by simpa only [Prod.mk.injEq] using hf
  obtain ⟨s, hs, hc⟩ := Option.map_eq_some_iff.mp hs
  have hr : Run (ι := MockIdentity) Affords (sampleViolation.foldl run c) :=
    (sampleBegin_run hb).ops _ (by
      simp only [sampleViolation, sampleHandshake, samplePoll, List.cons_append, List.nil_append,
        List.mem_cons, List.not_mem_nil, or_false]
      rintro op (rfl | rfl | rfl) <;> exact ⟨trivial, fun _ => trivial⟩)
  have h := closed_session_released hr hp hs hc
  exact ⟨c, hb, hp, h.2.1.trans (congrArg some hd)⟩

def sampleStream : StreamHandle := ⟨⟨0⟩, ⟨0⟩, 2, by decide⟩

def sampleCancel : List SampleOp :=
  sampleHandshake ++ [.request (.open_ Registry.sample ⟨0⟩), .world {} maxFrameBytes 2,
    .request (.cancel ⟨0⟩ sampleStream .cancelled)]

/-- After a cancel without room for its frame the session is closed, but every poll leaves
the socket in place with no deadline. -/
theorem cancelled_session_keeps_socket : ∃ c, sampleBegin.1 = .ok c ∧
    (∀ op ∈ sampleCancel, op.Offered) ∧
    let out := (sampleCancel.foldl run c).poll 1 Registry.sample (MockIdentity.mk (.replicate 32 1))
      { entropy := .replicate 32 1 : MockCrypto }
    out.1 = .pending ∧ out.2.1.session.map Session.closed = some true ∧
      out.2.1.closing = false ∧ out.2.1.nextDeadline = none ∧ out.2.1.socket.isSome = true := by
  obtain ⟨c, hb, hf⟩ := sample_after sampleCancel (fun c =>
    let out := c.poll 1 Registry.sample (MockIdentity.mk (.replicate 32 1))
      { entropy := .replicate 32 1 : MockCrypto }
    (out.1, out.2.1.session.map Session.closed, out.2.1.closing, out.2.1.nextDeadline,
      out.2.1.socket.isSome)) (a := (.pending, some true, false, none, true)) (by decide +kernel)
  refine ⟨c, hb, ?_, by simpa only [Prod.mk.injEq] using hf⟩
  simp only [sampleCancel, sampleHandshake, samplePoll, List.cons_append, List.nil_append,
    List.mem_cons, List.not_mem_nil, or_false]
  rintro op (rfl | rfl | rfl | rfl | rfl)
  · trivial
  · trivial
  · rfl
  · trivial
  · rfl

end Connection

end TalkSphere
