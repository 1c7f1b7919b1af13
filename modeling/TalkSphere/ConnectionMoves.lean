import TalkSphere.Connection
import TalkSphere.FramingWriter

/-! What a poll of a connection does, move by move. Each move has the guards under
which the loop reaches it, so an invariant of the moves is one of every poll. -/

namespace TalkSphere

open Relation (ReflTransGen)
open Cryptography (IntegrityKey)

namespace Connection

section

variable {σ γ : Type} [Cryptography γ] {c : Connection σ γ}

theorem onSession_none (h : c.session = none) (f : Session → Session) : c.onSession f = c := by
  cases c
  subst h
  rfl

theorem onSession_some {s : Session} (h : c.session = some s) (f : Session → Session) :
    c.onSession f =
      { c with
        session := some (f (s.setResources c.resources))
        resources := (f (s.setResources c.resources)).resources } := by
  simp only [onSession, withSession, h, Option.map_some, Option.getD_some]

theorem nextFrame_cases (c : Connection σ γ) :
    (∃ s, c.session = some s ∧ c.nextFrame =
      ((s.setResources c.resources).popOutbound.1, c.onSession fun s => s.popOutbound.2)) ∨
    c.session = none ∧ (c.handshakeOutput = [] ∧ c.nextFrame = (none, c) ∨
      ∃ f rest, c.handshakeOutput = f :: rest ∧
        c.nextFrame = (some f, { c with handshakeOutput := rest })) := by
  cases hs : c.session with
  | some s =>
    refine .inl ⟨s, rfl, ?_⟩
    simp only [nextFrame, onSession, withSession, hs, Option.isSome_some, if_true,
      Option.map_some, Option.join_some]
  | none =>
    refine .inr ⟨rfl, ?_⟩
    cases ho : c.handshakeOutput with
    | nil => exact .inl ⟨rfl, by simp [nextFrame, hs, ho]⟩
    | cons f rest => exact .inr ⟨f, rest, rfl, by simp [nextFrame, hs, ho]⟩

theorem nextFrame_eq {c c' : Connection σ γ} {next : Option WireFrame}
    (h : c.nextFrame = (next, c')) : ∃ session resources handshakeOutput,
      c' = { c with session, resources, handshakeOutput } := by
  rcases c.nextFrame_cases with ⟨s, -, hn⟩ | ⟨-, ⟨-, hn⟩ | ⟨f, rest, -, hn⟩⟩ <;>
    rw [hn] at h <;> obtain rfl := (Prod.mk.inj h).2
  · exact ⟨_, _, _, rfl⟩
  · exact ⟨_, _, _, rfl⟩
  · exact ⟨_, _, _, rfl⟩

/-- How a frame gets from the queue to the writer: sealed where there are keys. -/
inductive Admitted (c : Connection σ γ) (f : WireFrame) (crypto : γ) :
    Except Disposition Unit × Connection σ γ → Prop
  | unsealed {i i' : Integrity (IntegrityKey γ)} {e : IntegrityError}
      (keys : c.integrity = some i) (failed : i.seal_ f crypto = (.error e, i')) :
      Admitted c f crypto (.error (.integrity e), { c with integrity := some i' }.dropFrame f)
  | unstarted {integrity : Option (Integrity (IntegrityKey γ))} {frame : WireFrame}
      {e : FramingError} (lease : frame.reservation = f.reservation) :
      Admitted c f crypto (.error (.framing e), { c with integrity }.dropFrame frame)
  | started {integrity : Option (Integrity (IntegrityKey γ))} {frame : WireFrame}
      {phase : FrameProtection} (live : c.writer.failed = false) (idle : c.writer.bytes = [])
      (shape : frame.InMode phase) (lease : frame.reservation = f.reservation)
      (same : frame.header = f.header ∧ frame.payload = f.payload)
      (mode : phase = .untagged ∧ c.integrity = none ∧ integrity = none ∧ frame = f ∨
        phase = .tagged ∧ ∃ i i', c.integrity = some i ∧ integrity = some i' ∧
          i.seal_ f crypto = (.ok frame, i')) :
      Admitted c f crypto (.ok (), { c with
        integrity
        writer := { c.writer with
          reservation := f.reservation, bytes := FrameWriter.serialize frame, offset := 0 }
        writing := some (f.header.frameType, f.header.streamId, phase)
        traffic := { c.traffic with wrote := c.traffic.wrote ++ [(phase, frame)] } })

theorem startFrame_admitted (c : Connection σ γ) (f : WireFrame) (crypto : γ) :
    Admitted c f crypto (c.startFrame f crypto) := by
  simp only [startFrame]
  cases hi : c.integrity with
  | none =>
    simp only
    rcases c.writer.start_cases f .untagged with ⟨e, hs⟩ | ⟨hl, hb, hm, hs⟩ <;> simp only [hs]
    · exact .unstarted rfl
    · exact .started hl hb hm rfl ⟨rfl, rfl⟩ (.inl ⟨rfl, hi, rfl, rfl⟩)
  | some i =>
    simp only
    cases hseal : i.seal_ f crypto with
    | mk out i' =>
      cases out with
      | error e => exact .unsealed hi hseal
      | ok frame =>
        have hsame : frame.reservation = f.reservation ∧ frame.header = f.header ∧
            frame.payload = f.payload := by
          have hsealed := i.seal_sealed f crypto
          rw [hseal] at hsealed
          cases hsealed
          exact ⟨rfl, rfl, rfl⟩
        simp only
        rcases c.writer.start_cases frame .tagged with ⟨e, hs⟩ | ⟨hl, hb, hm, hs⟩ <;>
          simp only [hs]
        · exact .unstarted hsame.1
        · rw [hsame.1]
          exact .started hl hb hm hsame.1 hsame.2 (.inr ⟨rfl, i, i', hi, rfl, hseal⟩)

theorem establish_cases (c : Connection σ γ) : c.establish = c ∨
    ∃ h e h', c.handshake = some h ∧ h.takeEstablished = (some e, h') ∧ c.establish =
      { c with
        session := some ((Session.withHandle c.handle e.role e.localIdentity
          e.peerIdentity).setResources c.resources)
        integrity := some (.new e.keys)
        handshake := none } := by
  cases hh : c.handshake with
  | none => exact .inl (by simp only [establish, hh])
  | some h =>
    rcases h.takeEstablished_cases with ht | ⟨r, id, keys, -, -, -, ht⟩
    · refine .inl ?_
      simp only [establish, hh, ht]
      rw [← hh]
    · exact .inr ⟨h, _, _, rfl, ht, by simp only [establish, hh, ht]⟩

theorem pushOutput_some {c' : Connection σ γ} {f : WireFrame} (h : c.pushOutput f = some c') :
    ∃ lease resources, c.resources.outbound (f.payload.length + handshakeOverhead) =
      some (lease, resources) ∧ c' = { c with
        resources
        handshakeOutput := c.handshakeOutput ++ [{ f with reservation := some lease }] } := by
  obtain ⟨r, hr, rfl⟩ := Option.map_eq_some_iff.mp h
  exact ⟨r.1, r.2, hr, rfl⟩

/-- How a failure is answered: not at all, by the session, or before there is one. -/
inductive Failed (c : Connection σ γ) (d : Disposition) : Connection σ γ → Prop
  | aborted {d' : Disposition} (cause : d'.failure = d.failure) : Failed c d (c.abort d')
  | shut {code : ErrorCode} {deadline : Instant} (safe : c.safe = true)
      (session : c.session.isSome) :
      Failed c d ({ c with deadline, closing := true }.clearOutput.onSession fun s =>
        s.close (some d.failure) (some code))
  | silent {deadline : Instant} (safe : c.safe = true) (session : c.session = none) :
      Failed c d { c with
        deadline, closing := true, handshakeOutput := []
        resources := Session.releaseAll c.resources c.handshakeOutput
        events := c.events ++ [.connectionClosed c.handle.id (some d.failure)] }
  | answered {code : ErrorCode} {f : WireFrame} {lease : Reservation} {resources : Resources}
      {deadline : Instant} (safe : c.safe = true) (session : c.session = none)
      (frame : errorFrame code = some f)
      (room : (Session.releaseAll c.resources c.handshakeOutput).outbound
        (f.payload.length + handshakeOverhead) = some (lease, resources)) :
      Failed c d { c with
        deadline, closing := true, resources
        handshakeOutput := [{ f with reservation := some lease }]
        events := c.events ++ [.connectionClosed c.handle.id (some d.failure)] }

theorem fail_failed (c : Connection σ γ) (d : Disposition) (now : Instant) :
    Failed c d (c.fail d now) := by
  cases hsafe : c.safe with
  | false =>
    have hd : (d.withSafeOutput c.safe).response = none := by simp [Disposition.withSafeOutput, hsafe]
    have hf : (d.withSafeOutput c.safe).failure = d.failure := by
      simp [Disposition.withSafeOutput, hsafe]
    simp only [fail, hd]
    exact .aborted hf
  | true =>
    have hd : d.withSafeOutput c.safe = d := by simp [Disposition.withSafeOutput, hsafe]
    simp only [fail, hd]
    split
    case h_1 => exact .aborted rfl
    case h_2 code _ =>
      split
      case h_1 => exact .aborted rfl
      case h_2 deadline _ =>
        by_cases hs : c.session.isSome = true
        · exact (if_pos hs : ite (c.session.isSome = true) _ _ = _) ▸ .shut hsafe hs
        · have hnone : c.session = none := by simpa using hs
          refine (if_neg hs : ite (c.session.isSome = true) _ _ = _) ▸ ?_
          simp only [respond]
          split
          case h_1 => exact .silent hsafe hnone
          case h_2 f he =>
            generalize hq : (pushOutput _ f : Option (Connection σ γ)) = out
            cases out with
            | none => exact .silent hsafe hnone
            | some c' =>
              obtain ⟨lease, resources, hroom, rfl⟩ := pushOutput_some hq
              exact .answered hsafe hnone he hroom

inductive Written (c : Connection σ γ) (now : Instant) : Connection σ γ → Prop
  | unknown (none : c.writing = none) : Written c now c
  | unsent {kind : FrameType} {id : UInt32} {i i' : Integrity (IntegrityKey γ)}
      {e : IntegrityError} (writing : c.writing = some (kind, id, .tagged))
      (keys : c.integrity = some i) (failed : i.sent = (.error e, i')) :
      Written c now ({ c with writing := none, integrity := some i' }.abort (.integrity e))
  | rejected {kind : FrameType} {id : UInt32} {h : Handshake γ} {e : HandshakeError}
      (writing : c.writing = some (kind, id, .untagged)) (opened : c.closing = false)
      (handshake : c.handshake = some h) (failed : h.sent kind = (.error e, h.close)) :
      Written c now ({ c with writing := none, handshake := some h.close }.fail (.handshake e) now)
  | sealed {kind : FrameType} {id : UInt32} {integrity : Option (Integrity (IntegrityKey γ))}
      (writing : c.writing = some (kind, id, .tagged))
      (keys : c.integrity = none ∧ integrity = none ∨
        ∃ i i', c.integrity = some i ∧ integrity = some i' ∧ i.sent = (.ok (), i')) :
      Written c now ({ c with writing := none, integrity }.onSession (·.sent kind id))
  | plain {kind : FrameType} {id : UInt32} (writing : c.writing = some (kind, id, .untagged))
      (past : c.closing = true ∨ c.handshake = none) :
      Written c now ({ c with writing := none }.onSession (·.sent kind id))
  | sent {kind : FrameType} {id : UInt32} {h h' : Handshake γ}
      (writing : c.writing = some (kind, id, .untagged)) (opened : c.closing = false)
      (handshake : c.handshake = some h) (done : h.sent kind = (.ok (), h')) :
      Written c now ({ c with writing := none, handshake := some h' }.onSession (·.sent kind id))

theorem written_written (c : Connection σ γ) (now : Instant) :
    Written c now (c.written now).2 := by
  unfold written
  split
  case h_1 h => exact .unknown h
  case h_2 kind id phase hw =>
    cases phase with
    | tagged =>
      simp only [if_true]
      cases hi : c.integrity with
      | none => exact .sealed hw (.inl ⟨hi, rfl⟩)
      | some i =>
        simp only
        split
        case h_1 e i' he => exact .unsent hw hi he
        case h_2 i' he => exact .sealed hw (.inr ⟨i, i', hi, rfl, he⟩)
    | untagged =>
      simp only [reduceCtorEq, if_false]
      split_ifs with hc
      · exact .plain hw (.inl hc)
      · have hopen : c.closing = false := by simpa using hc
        split
        case h_1 hh => exact .plain hw (.inr hh)
        case h_2 h hh =>
          rcases h.sent_cases kind with ⟨-, -, he⟩ | ⟨-, -, -, -, he⟩ | he <;> simp only [he]
          · exact .sent hw hopen hh he
          · exact .sent hw hopen hh he
          · exact .rejected hw hopen hh he

variable {ι : Type} [Identity ι]

inductive Delivered (c : Connection σ γ) (f : WireFrame) (now : Instant) (registry : Registry)
    (identity : ι) (crypto : γ) : Connection σ γ → Prop
  | unkeyed (handshake : c.handshake = none) (keys : c.integrity = none) :
      Delivered c f now registry identity crypto c
  | answered {h h' : Handshake γ} {auth : WireFrame} {identity' : ι} {crypto' : γ}
      {lease : Reservation} {resources : Resources} (handshake : c.handshake = some h)
      (received : h.receive f identity crypto = (.ok (some auth), h', identity', crypto'))
      (room : c.resources.outbound (auth.payload.length + handshakeOverhead) =
        some (lease, resources)) :
      Delivered c f now registry identity crypto { c with
        handshake := some h', resources
        handshakeOutput := c.handshakeOutput ++ [{ auth with reservation := some lease }] }
  | crowded {h h' : Handshake γ} {auth : WireFrame} {identity' : ι} {crypto' : γ}
      (handshake : c.handshake = some h)
      (received : h.receive f identity crypto = (.ok (some auth), h', identity', crypto')) :
      Delivered c f now registry identity crypto
        ({ c with handshake := some h' }.abort (localFailure .resourceLimit))
  | verified {h h' : Handshake γ} {identity' : ι} {crypto' : γ} (handshake : c.handshake = some h)
      (received : h.receive f identity crypto = (.ok none, h', identity', crypto')) :
      Delivered c f now registry identity crypto { c with handshake := some h' }
  | rejected {h : Handshake γ} {e : HandshakeError} (handshake : c.handshake = some h) :
      Delivered c f now registry identity crypto
        ({ c with handshake := some h.close }.fail (.handshake e) now)
  | forged {i i' : Integrity (IntegrityKey γ)} {e : IntegrityError}
      (handshake : c.handshake = none) (keys : c.integrity = some i)
      (failed : i.verify f crypto = (.error e, i')) :
      Delivered c f now registry identity crypto
        ({ c with integrity := some i' }.abort (.integrity e))
  | taken {i i' : Integrity (IntegrityKey γ)} {verified : VerifiedFrame}
      (handshake : c.handshake = none) (keys : c.integrity = some i)
      (ok : i.verify f crypto = (.ok verified, i')) :
      Delivered c f now registry identity crypto
        ((({ c with integrity := some i' }.onSession fun s =>
          (s.receive verified registry now).2)).settle now)

theorem deliver_delivered (c : Connection σ γ) (f : WireFrame) (now : Instant)
    (registry : Registry) (identity : ι) (crypto : γ) :
    Delivered c f now registry identity crypto (c.deliver f now registry identity crypto).1 := by
  unfold deliver
  split
  case h_1 h hh =>
    have hr := h.receive_received f identity crypto
    generalize he : h.receive f identity crypto = out at hr
    cases hr with
    | rejected => exact .rejected hh
    | @hello remote id auth identity' answer =>
      simp only
      generalize hq : (pushOutput _ answer : Option (Connection σ γ)) = pushed
      cases pushed with
      | none => exact .crowded hh he
      | some c' =>
        obtain ⟨lease, resources, hroom, rfl⟩ := pushOutput_some hq
        exact .answered hh he hroom
    | auth => exact .verified hh he
  case h_2 hh =>
    split
    case h_1 hi => exact .unkeyed hh hi
    case h_2 i hi =>
      split
      case h_1 e i' hv => exact .forged hh hi hv
      case h_2 verified i' hv => exact .taken hh hi hv

end

variable {σ γ ι : Type} [Socket σ] [Cryptography γ] [Identity ι]

variable (ι) in
inductive Move : Connection σ γ → Connection σ γ → Prop
  | tick {c : Connection σ γ} (live : c.socket.isSome) (now : Instant) :
      Move c (c.onSession (·.tick now))
  | idle {c c' : Connection σ γ} (live : c.socket.isSome) (empty : c.nextFrame = (none, c')) :
      Move c c'
  | drained {c c' : Connection σ γ} (live : c.socket.isSome) (free : c.writer.isBusy = false)
      (empty : c.nextFrame = (none, c')) (closing : c.closing = true) : Move c c'.release
  | admitted {c c₁ c' : Connection σ γ} {f : WireFrame} {crypto : γ} (live : c.socket.isSome)
      (free : c.writer.isBusy = false) (next : c.nextFrame = (some f, c₁))
      (start : Admitted c₁ f crypto (.ok (), c')) : Move c c'
  | refused {c c₁ c₂ : Connection σ γ} {f : WireFrame} {crypto : γ} {d : Disposition}
      (live : c.socket.isSome) (free : c.writer.isBusy = false)
      (next : c.nextFrame = (some f, c₁)) (start : Admitted c₁ f crypto (.error d, c₂)) :
      Move c (c₂.abort d)
  | flushed {c : Connection σ γ} {socket socket' : σ} {writer : FrameWriter}
      (live : c.socket = some socket) (busy : c.writer.isBusy = true)
      (flush : c.writer.pollFlush socket = (.pending, writer, socket')) :
      Move c ({ c with socket := some socket' }.setWriter writer)
  | broken {c : Connection σ γ} {socket socket' : σ} {writer : FrameWriter} {e : FramingError}
      (live : c.socket = some socket) (busy : c.writer.isBusy = true)
      (flush : c.writer.pollFlush socket = (.ready (.error e), writer, socket')) :
      Move c (({ c with socket := some socket' }.setWriter writer).abort (.framing e))
  | written {c : Connection σ γ} {socket socket' : σ} {writer : FrameWriter} (now : Instant)
      (live : c.socket = some socket) (busy : c.writer.isBusy = true)
      (flush : c.writer.pollFlush socket = (.ready (.ok ()), writer, socket')) :
      Move c (({ c with socket := some socket' }.setWriter writer).written now).2
  | establish (c : Connection σ γ) : Move c c.establish
  | waiting {c : Connection σ γ} {socket socket' : σ} {reader : FrameReader}
      (live : c.socket = some socket) (opened : c.closing = false)
      (keyed : ¬ (c.receivePhase = .tagged ∧ c.integrity.isNone))
      (poll : c.reader.pollFrame socket c.receivePhase = (.pending, reader, socket')) :
      Move c (c.polled reader socket')
  | faulted {c : Connection σ γ} {socket socket' : σ} {reader : FrameReader} {e : FramingError}
      (now : Instant) (live : c.socket = some socket) (opened : c.closing = false)
      (keyed : ¬ (c.receivePhase = .tagged ∧ c.integrity.isNone))
      (poll : c.reader.pollFrame socket c.receivePhase = (.ready (.error e), reader, socket')) :
      Move c (((c.polled reader socket').faulted e).fail (.framing e) now)
  | ended {c : Connection σ γ} {socket socket' : σ} {reader : FrameReader}
      (live : c.socket = some socket) (opened : c.closing = false)
      (keyed : ¬ (c.receivePhase = .tagged ∧ c.integrity.isNone))
      (poll : c.reader.pollFrame socket c.receivePhase = (.ready (.ok none), reader, socket')) :
      Move c (c.polled reader socket').ended
  | delivered {c : Connection σ γ} {socket socket' : σ} {reader : FrameReader} {f : WireFrame}
      (now : Instant) (registry : Registry) (identity : ι) (crypto : γ)
      (live : c.socket = some socket) (opened : c.closing = false)
      (keyed : ¬ (c.receivePhase = .tagged ∧ c.integrity.isNone))
      (poll : c.reader.pollFrame socket c.receivePhase = (.ready (.ok (some f)), reader, socket')) :
      Move c (((c.polled reader socket').heard f).deliver f now registry identity crypto).1
  | finish {c : Connection σ γ} (ready : c.readyToClose = true) : Move c c.finish
  | expired {c : Connection σ γ} {now : Instant} (live : c.socket.isSome)
      (late : c.deadline ≤ now) (timed : c.handshake.isSome ∨ c.closing = true) :
      Move c (c.abort (localFailure .deadlineExceeded))

variable (ι) in
abbrev Moves : Connection σ γ → Connection σ γ → Prop := ReflTransGen (Move ι)

theorem flush_moves {c : Connection σ γ} (now : Instant) (live : c.socket.isSome)
    (busy : c.writer.isBusy = true) : Move ι c (c.flush now).2 := by
  obtain ⟨socket, hs⟩ := Option.isSome_iff_exists.mp live
  simp only [flush, hs]
  cases hf : c.writer.pollFlush socket with
  | mk out rest =>
    cases out with
    | pending => exact .flushed hs busy hf
    | ready result =>
      cases result with
      | error e => exact .broken hs busy hf
      | ok => exact .written now hs busy hf

theorem write_moves (c : Connection σ γ) (crypto : γ) (now : Instant) :
    Moves ι c (c.write crypto now).2 := by
  simp only [write]
  split_ifs with hs hb
  · exact .refl
  · exact .single (flush_moves now (by simpa [Option.isSome_iff_ne_none] using hs) hb)
  · have live : c.socket.isSome := by simpa [Option.isSome_iff_ne_none] using hs
    have free : c.writer.isBusy = false := by simpa using hb
    cases hn : c.nextFrame with
    | mk next c₁ =>
      have ha := startFrame_admitted c₁
      obtain ⟨session, resources, output, rfl⟩ := nextFrame_eq hn
      cases next with
      | none =>
        simp only
        split_ifs with hc
        · exact .single (.drained live free hn hc)
        · exact .single (.idle live hn)
      | some f =>
        simp only
        replace ha := ha f crypto
        split
        case h_1 d c₂ he => exact .single (.refused live free hn (he ▸ ha))
        case h_2 c₂ he =>
          rw [he] at ha
          refine .tail (.single (.admitted live free hn ha)) ?_
          cases ha with
          | started =>
            exact flush_moves now live (by simp [FrameWriter.isBusy, FrameWriter.serialize_ne_nil])

theorem read_moves {c : Connection σ γ} (opened : c.closing = false) (now : Instant)
    (registry : Registry) (identity : ι) (crypto : γ) :
    Moves ι c (c.read now registry identity crypto).2.1 := by
  simp only [read]
  split_ifs with keyed
  · exact .refl
  · cases hs : c.socket with
    | none => exact .refl
    | some socket =>
      simp only
      cases hp : c.reader.pollFrame socket c.receivePhase with
      | mk out rest =>
        cases out with
        | pending => exact .single (.waiting hs opened keyed hp)
        | ready result =>
          cases result with
          | error e => exact .single (.faulted now hs opened keyed hp)
          | ok frame =>
            cases frame with
            | none => exact .single (.ended hs opened keyed hp)
            | some f => exact .single (.delivered now registry identity crypto hs opened keyed hp)

theorem turnEnd_moves (c : Connection σ γ) (progressed : Bool) :
    Moves ι c (c.turnEnd progressed).2 := by
  have he : Moves ι c c.establish := .single (.establish c)
  have hf : Moves ι c (if c.establish.readyToClose then c.establish.finish else c.establish) := by
    split_ifs with hr
    · exact he.tail (.finish hr)
    · exact he
  simp only [turnEnd]
  generalize (if c.establish.readyToClose then c.establish.finish else c.establish) = c' at hf ⊢
  split <;> exact hf

theorem turn_moves (c : Connection σ γ) (now : Instant) (registry : Registry) (identity : ι)
    (crypto : γ) : Moves ι c (c.turn now registry identity crypto).2.1 := by
  have hw : Moves ι c (c.write crypto now).2.establish :=
    (write_moves c crypto now).tail (.establish _)
  simp only [turn]
  split_ifs with hs hc
  · exact hw
  · exact hw.trans (turnEnd_moves _ _)
  · exact (hw.trans (read_moves (by simpa using hc) now registry identity crypto)).trans
      (turnEnd_moves _ _)

theorem turns_moves (now : Instant) (registry : Registry) (n : Nat) (c : Connection σ γ)
    (identity : ι) (crypto : γ) : Moves ι c (turns now registry n c identity crypto).2.1 := by
  induction n generalizing c identity crypto with
  | zero => exact .refl
  | succ n ih =>
    have ht := turn_moves c now registry identity crypto
    rw [turns]
    split
    case h_1 h =>
      rw [h] at ht
      exact ht
    case h_2 h =>
      rw [h] at ht
      exact ht.trans (ih _ _ _)

theorem poll_moves (c : Connection σ γ) (now : Instant) (registry : Registry) (identity : ι)
    (crypto : γ) : Moves ι c (c.poll now registry identity crypto).2.1 := by
  simp only [poll]
  split_ifs with hs hd
  · exact .refl
  · obtain ⟨ht, hl⟩ : (c.handshake.isSome ∨ c.closing = true) ∧ c.deadline ≤ now := by
      simpa using hd
    exact .single (.expired (by simpa [Option.isSome_iff_ne_none] using hs) hl ht)
  · have live : c.socket.isSome := by simpa [Option.isSome_iff_ne_none] using hs
    exact .trans (.single (.tick live now)) (turns_moves now registry 32 _ identity crypto)

end Connection

end TalkSphere
