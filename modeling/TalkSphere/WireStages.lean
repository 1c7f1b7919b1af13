import TalkSphere.ByteStreams
import TalkSphere.ConnectionSound

/-! What a connection has on the wire, from its HELLO to the session. A frame has the mode
of its position in either direction: output changes mode with its third frame because the
AUTH is the second one, and input because the peer's AUTH is. -/

namespace TalkSphere

open Relation (ReflTransGen)
open Cryptography (IntegrityKey)

/-- The frames the peer sent before the session, as far as the handshake has come. -/
inductive Handshake.Stage {γ : Type} [Cryptography γ] (h : Handshake γ) : WireLog → Prop
  | silent (new : h.remote = none) (unverified : h.peerVerified = false) : Stage h []
  | greeted {mode : FrameProtection} {f : WireFrame} {remote : Hello} {id : IdentityId}
      (known : h.remote = some (remote, id)) (hello : Hello.decode f.payload = .ok remote)
      (unverified : h.peerVerified = false) : Stage h [(mode, f)]
  | verified {mode mode' : FrameProtection} {f g : WireFrame} {remote : Hello} {id : IdentityId}
      {auth : Auth} {crypto : γ} (known : h.remote = some (remote, id))
      (hello : Hello.decode f.payload = .ok remote) (verified : h.peerVerified = true)
      (kind : g.header.frameType = .auth) (decoded : Auth.decode g.payload = .ok auth)
      (signed : Cryptography.verifySignature crypto remote.identityPublicKey
        ((h.transcript remote).authentication h.role.opposite).bytes auth.signature = .ok ()) :
      Stage h [(mode, f), (mode', g)]

namespace Handshake.Stage

variable {γ : Type} [Cryptography γ] {h : Handshake γ} {log : WireLog}

theorem two (hs : h.Stage log) (hv : h.peerVerified = true) : log.length = 2 := by
  cases hs with
  | silent new unverified | greeted _ _ unverified => exact absurd hv (by simp [unverified])
  | verified => rfl

theorem sent (hs : h.Stage log) (helloSent authSent : Bool) :
    ({ h with helloSent, authSent } : Handshake γ).Stage log := by
  cases hs with
  | silent new unverified => exact .silent new unverified
  | greeted known hello unverified => exact .greeted known hello unverified
  | verified known hello verified kind decoded signed =>
    exact .verified known hello verified kind decoded signed

theorem greet {mode : FrameProtection} {f : WireFrame} {remote : Hello} {id : IdentityId}
    (hs : h.Stage log) (new : h.remote = none) (decoded : Hello.decode f.payload = .ok remote) :
    ({ h with remote := some (remote, id) } : Handshake γ).Stage (log ++ [(mode, f)]) := by
  cases hs with
  | silent _ unverified => exact .greeted rfl decoded unverified
  | greeted known | verified known => exact absurd (new.symm.trans known) (by simp)

theorem verify {mode : FrameProtection} {g : WireFrame} {remote : Hello} {id : IdentityId}
    {auth : Auth} {crypto : γ} {secret : Option (Cryptography.EphemeralSecret γ)}
    {keys : Option (SessionKeys (IntegrityKey γ))} (hs : h.Stage log)
    (unverified : h.peerVerified = false) (known : h.remote = some (remote, id))
    (kind : g.header.frameType = .auth) (decoded : Auth.decode g.payload = .ok auth)
    (signed : Cryptography.verifySignature crypto remote.identityPublicKey
      ((h.transcript remote).authentication h.role.opposite).bytes auth.signature = .ok ()) :
    ({ h with secret, keys, peerVerified := true } : Handshake γ).Stage (log ++ [(mode, g)]) := by
  cases hs with
  | silent new => exact absurd (new.symm.trans known) (by simp)
  | greeted known' hello =>
    obtain ⟨rfl, rfl⟩ := Prod.mk.inj (Option.some.inj (known'.symm.trans known))
    exact .verified known hello rfl kind decoded signed
  | verified _ _ verified => exact absurd (unverified.symm.trans verified) (by simp)

end Handshake.Stage

namespace Connection

structure Wire (σ γ : Type) [Cryptography γ] where
  socket : Option σ
  reader : FrameReader
  writer : FrameWriter
  handshake : Option (Handshake γ)
  keyed : Bool
  established : Bool
  output : List WireFrame
  writing : Option (FrameType × UInt32 × FrameProtection)
  closing : Bool
  traffic : Traffic σ

section

variable {σ γ : Type} [Cryptography γ] {c : Connection σ γ}

def wire (c : Connection σ γ) : Wire σ γ where
  socket := c.socket
  reader := c.reader
  writer := c.writer
  handshake := c.handshake
  keyed := c.integrity.isSome
  established := c.session.isSome
  output := c.handshakeOutput
  writing := c.writing
  closing := c.closing
  traffic := c.traffic

@[simp] theorem wire_onSession (c : Connection σ γ) (f : Session → Session) :
    (c.onSession f).wire = c.wire := by
  cases hs : c.session <;> simp [wire, onSession, withSession, hs]

def Wire.release (v : Wire σ γ) : Wire σ γ :=
  { v with
    socket := none
    traffic := { v.traffic with retired := v.socket.or v.traffic.retired }
    reader := {}, writer := {}, handshake := none, keyed := false, output := []
    writing := none }

theorem wire_release (c : Connection σ γ) : c.release.wire = c.wire.release := by
  cases hs : c.session <;> simp [wire, release, onSession, withSession, clearOutput, setWriter,
    Wire.release, hs]

theorem wire_conclude (c : Connection σ γ) (d : Disposition) : (c.conclude d).wire = c.wire := by
  unfold conclude
  split_ifs
  · exact wire_onSession c _
  · rfl
  · rfl

theorem wire_abort (live : c.socket.isSome) (d : Disposition) :
    (c.abort d).wire = c.wire.release := by
  rw [abort_eq live, wire_release, wire_conclude]

/-- Both AUTH frames: the peer's was verified and the own one is written completely. -/
structure Attested (h : Handshake γ) (accepted : List UInt8) (wrote heard : WireLog) : Prop where
  own : WireLog.kinds (wrote.take 2) = [.hello, .auth]
  hello : ∀ x ∈ wrote.head?, x.2.payload = h.localHello.encode
  written : wireBytes (WireLog.frames (wrote.take 2)) <+: accepted
  peer : h.Stage (heard.take 2)
  verified : h.peerVerified = true

variable (γ) in
/-- What the record of a connection says at any time, also after its socket is closed. -/
structure Recorded (accepted given : List UInt8) (established : Bool) (wrote heard : WireLog)
    (faults : List FramingError) : Prop where
  outgoing : WireLog.Placed 0 wrote
  incoming : WireLog.Placed 0 heard
  unreserved : ∀ x ∈ heard, x.2.reservation = none
  steady : FramingError.phaseChanged ∉ faults
  sent : accepted <+: wireBytes (WireLog.frames wrote)
  got : wireBytes (WireLog.frames heard) <+: given
  attested : established = true → ∃ h : Handshake γ, Attested h accepted wrote heard

namespace Attested

variable {h : Handshake γ} {accepted accepted' : List UInt8} {wrote heard : WireLog}

theorem grow (ha : Attested h accepted wrote heard) (hsub : accepted <+: accepted')
    (wrote' heard' : WireLog) : Attested h accepted' (wrote ++ wrote') (heard ++ heard') := by
  have hw : 2 ≤ wrote.length := by
    have hl := congrArg List.length ha.own
    simp only [WireLog.kinds, List.length_map, List.length_take, List.length_cons,
      List.length_nil] at hl
    omega
  have hh : 2 ≤ heard.length := by
    have hl := ha.peer.two ha.verified
    simp only [List.length_take] at hl
    omega
  obtain ⟨x, rest, rfl⟩ := List.exists_cons_of_ne_nil (show wrote ≠ [] by rintro rfl; simp at hw)
  refine ⟨?_, ?_, ?_, ?_, ha.verified⟩
  · rw [List.take_append_of_le_length hw]
    exact ha.own
  · exact ha.hello
  · rw [List.take_append_of_le_length hw]
    exact ha.written.trans hsub
  · rw [List.take_append_of_le_length hh]
    exact ha.peer

end Attested

namespace Recorded

variable {accepted given : List UInt8} {established : Bool} {wrote heard : WireLog}
  {faults : List FramingError} {mode : FrameProtection} {f : WireFrame}

theorem accept {accepted' : List UInt8}
    (hr : Recorded γ accepted given established wrote heard faults)
    (hsub : accepted <+: accepted') (hsent : accepted' <+: wireBytes (WireLog.frames wrote)) :
    Recorded γ accepted' given established wrote heard faults :=
  { hr with
    sent := hsent
    attested := fun he => (hr.attested he).imp fun _ ha => by simpa using ha.grow hsub [] [] }

theorem give {given' : List UInt8}
    (hr : Recorded γ accepted given established wrote heard faults) (hsub : given <+: given') :
    Recorded γ accepted given' established wrote heard faults :=
  { hr with got := hr.got.trans hsub }

theorem start (hr : Recorded γ accepted given established wrote heard faults)
    (hm : mode = WireLog.modeAt wrote.length) (hf : f.InMode mode) :
    Recorded γ accepted given established (wrote ++ [(mode, f)]) heard faults :=
  { hr with
    outgoing := hr.outgoing.concat (by rwa [Nat.zero_add]) hf
    sent := hr.sent.trans (by simp [WireLog.frames, wireBytes])
    attested := fun he => (hr.attested he).imp fun _ ha => by
      simpa using ha.grow List.prefix_rfl [(mode, f)] [] }

theorem hear (hr : Recorded γ accepted given established wrote heard faults)
    (hm : mode = WireLog.modeAt heard.length) (hf : f.InMode mode) (hn : f.reservation = none)
    (hg : wireBytes (WireLog.frames (heard ++ [(mode, f)])) <+: given) :
    Recorded γ accepted given established wrote (heard ++ [(mode, f)]) faults :=
  { hr with
    incoming := hr.incoming.concat (by rwa [Nat.zero_add]) hf
    unreserved := by simpa [or_imp, forall_and, hn] using hr.unreserved
    got := hg
    attested := fun he => (hr.attested he).imp fun _ ha => by
      simpa using ha.grow List.prefix_rfl [] [(mode, f)] }

theorem attest {h : Handshake γ} (hr : Recorded γ accepted given established wrote heard faults)
    (ha : Attested h accepted wrote heard) : Recorded γ accepted given true wrote heard faults :=
  { hr with attested := fun _ => ⟨h, ha⟩ }

theorem fault {e : FramingError} (hr : Recorded γ accepted given established wrote heard faults)
    (he : e ≠ .phaseChanged) :
    Recorded γ accepted given established wrote heard (faults ++ [e]) :=
  { hr with steady := by simpa [he.symm] using hr.steady }

end Recorded

/-- The own half of an open handshake: which frames it has produced, how many of them are
written completely, and which one the writer has. -/
structure Exchanging (h : Handshake γ) (busy : Bool) (wrote : WireLog) (output : List WireFrame)
    (writing : Option (FrameType × UInt32 × FrameProtection)) : Prop where
  live : h.closed = false
  frames : WireLog.kinds wrote ++ output.map (·.header.frameType) =
    .hello :: if h.remote.isSome then [.auth] else []
  own : ∀ f ∈ (WireLog.frames wrote ++ output).head?, f.payload = h.localHello.encode
  hello : h.helloSent = decide (1 ≤ wrote.length - busy.toNat)
  auth : h.authSent = decide (2 ≤ wrote.length - busy.toNat)
  writing : busy = true → ∃ before mode f, wrote = before ++ [(mode, f)] ∧
    writing = some (f.header.frameType, f.header.streamId, .untagged)

namespace Exchanging

variable {h : Handshake γ} {busy : Bool} {wrote : WireLog} {output : List WireFrame}
  {writing : Option (FrameType × UInt32 × FrameProtection)} {f : WireFrame}

theorem start (he : Exchanging h false wrote (f :: output) writing) :
    Exchanging h true (wrote ++ [(.untagged, f)]) output
      (some (f.header.frameType, f.header.streamId, .untagged)) where
  live := he.live
  frames := by simpa [WireLog.kinds] using he.frames
  own := by simpa [WireLog.frames] using he.own
  hello := by simpa using he.hello
  auth := by simpa using he.auth
  writing _ := ⟨wrote, .untagged, f, rfl, rfl⟩

theorem last {mode : FrameProtection} (he : Exchanging h busy (wrote ++ [(mode, f)]) output writing) :
    wrote = [] ∧ f.header.frameType = .hello ∨
      wrote.length = 1 ∧ f.header.frameType = .auth ∧ h.remote.isSome := by
  have hf := he.frames
  cases wrote with
  | nil =>
    simp only [WireLog.kinds, List.nil_append, List.map_cons, List.map_nil, List.cons_append] at hf
    exact .inl ⟨rfl, (List.cons.inj hf).1⟩
  | cons x rest =>
    by_cases hr : h.remote.isSome = true
    · simp only [hr, if_true, WireLog.kinds, List.cons_append, List.map_cons] at hf
      have ht := (List.cons.inj hf).2
      cases rest with
      | nil =>
        obtain ⟨hk, -⟩ : f.header.frameType = .auth ∧ output = [] := by simpa using ht
        exact .inr ⟨rfl, hk, hr⟩
      | cons y rest => simp at ht
    · simp [hr, WireLog.kinds] at hf

theorem sent {kind : FrameType} {id : UInt32} {mode : FrameProtection}
    (he : Exchanging h true wrote output writing) (hw : writing = some (kind, id, mode)) :
    ∃ helloSent authSent, h.sent kind = (.ok (), { h with helloSent, authSent }) ∧
      Exchanging { h with helloSent, authSent } false wrote output none := by
  obtain ⟨before, m, f, rfl, hlast⟩ := he.writing rfl
  obtain rfl : kind = f.header.frameType := by
    rw [hw] at hlast
    exact (Prod.mk.inj (Option.some.inj hlast)).1
  have hello := he.hello
  have auth := he.auth
  simp only [List.length_append, List.length_singleton, Bool.toNat_true, Nat.add_sub_cancel]
    at hello auth
  rcases he.last with ⟨rfl, hk⟩ | ⟨hl, hk, hr⟩
  · refine ⟨true, h.authSent, ?_, he.live, he.frames, he.own, rfl, ?_, nofun⟩
    · simp only [List.length_nil] at hello
      simp [Handshake.sent, hk, he.live, hello]
    · simpa using auth
  · simp only [hl] at hello auth
    refine ⟨h.helloSent, true, ?_, he.live, he.frames, he.own, ?_, ?_, nofun⟩
    · simp [Handshake.sent, hk, he.live, hello, auth, hr]
    · simp [hello, hl]
    · simp [hl]

theorem answer (he : Exchanging h busy wrote output writing) (new : h.remote = none)
    (hk : f.header.frameType = .auth) (peer : Hello × IdentityId) :
    Exchanging { h with remote := some peer } busy wrote (output ++ [f]) writing := by
  have hf := he.frames
  simp only [new, Option.isSome_none, Bool.false_eq_true, if_false] at hf
  refine ⟨he.live, ?_, ?_, he.hello, he.auth, he.writing⟩
  · rw [List.map_append, ← List.append_assoc, hf]
    simp [hk]
  · have hne : WireLog.frames wrote ++ output ≠ [] := by
      have hl := congrArg List.length hf
      intro h0
      simp_all [WireLog.kinds, WireLog.frames]
    obtain ⟨g, rest, hg⟩ := List.exists_cons_of_ne_nil hne
    have hown := he.own
    rw [← List.append_assoc]
    rw [hg] at hown ⊢
    exact hown

theorem count (he : Exchanging h busy wrote output writing) : wrote.length + output.length ≤ 2 := by
  have hl := congrArg List.length he.frames
  simp only [WireLog.kinds, List.length_append, List.length_map, List.length_cons] at hl
  split at hl <;> simp only [List.length_cons, List.length_nil] at hl <;> omega

theorem complete (he : Exchanging h busy wrote output writing) (ha : h.authSent = true) :
    WireLog.kinds wrote = [.hello, .auth] ∧ busy = false := by
  have hn : 2 ≤ wrote.length - busy.toNat := of_decide_eq_true (he.auth.symm.trans ha)
  have hf := he.frames
  match wrote with
  | [] => simp at hn
  | [x] => simp only [List.length_singleton] at hn; omega
  | x :: y :: rest =>
    by_cases hr : h.remote.isSome = true
    · simp only [hr, if_true, WireLog.kinds, List.map_cons, List.cons_append, List.cons.injEq,
        List.append_eq_nil_iff, List.map_eq_nil_iff] at hf
      obtain ⟨hx, hy, rfl, -⟩ := hf
      refine ⟨by simp [WireLog.kinds, hx, hy], ?_⟩
      cases busy with
      | true => simp at hn
      | false => rfl
    · simp [hr, WireLog.kinds] at hf

theorem room (he : Exchanging h false wrote output writing) (ha : h.authSent = false) :
    wrote.length ≤ 1 := by
  have h2 := he.auth
  simp only [ha, Bool.toNat_false, Nat.sub_zero] at h2
  have := of_decide_eq_false h2.symm
  omega

end Exchanging

namespace Wire

def phaseOf (handshake : Option (Handshake γ)) : FrameProtection :=
  match handshake with
  | none => .tagged
  | some h => h.receiveProtection

variable [ByteStream σ]

def given (v : Wire σ γ) : List UInt8 :=
  ((v.socket.or v.traffic.retired).map ByteStream.given).getD []

def accepted (v : Wire σ γ) : List UInt8 :=
  ((v.socket.or v.traffic.retired).map ByteStream.accepted).getD []

abbrev Logged (v : Wire σ γ) : Prop :=
  Recorded γ v.accepted v.given v.established v.traffic.wrote v.traffic.heard v.traffic.faults

structure Sending (v : Wire σ γ) : Prop where
  bytes : v.accepted ++ v.writer.bytes.drop v.writer.offset =
    wireBytes (WireLog.frames v.traffic.wrote)
  plain : v.keyed = false → v.traffic.wrote.length + v.output.length ≤ 2
  keyed : v.keyed = true → 2 ≤ v.traffic.wrote.length

structure Receiving (v : Wire σ γ) : Prop where
  bytes : v.given = wireBytes (WireLog.frames v.traffic.heard) ++ v.reader.taken
  unfinished : v.reader.Partial (phaseOf v.handshake)
  phase : v.reader.phase = none ∨ v.reader.phase = some (phaseOf v.handshake)
  stage : ∀ h ∈ v.handshake, h.Stage v.traffic.heard
  settled : v.handshake = none → 2 ≤ v.traffic.heard.length

structure Phased (v : Wire σ γ) : Prop where
  logged : v.Logged
  sending : v.socket.isSome → v.Sending
  opening : v.socket.isSome → v.closing = false → ∀ h ∈ v.handshake,
    Exchanging h v.writer.isBusy v.traffic.wrote v.output v.writing
  receiving : v.socket.isSome → v.closing = false → v.Receiving

variable {v : Wire σ γ}

theorem Logged.release (h : v.Logged) : v.release.Phased :=
  ⟨by simpa [Logged, Wire.release, accepted, given] using h, nofun, nofun, nofun⟩

theorem Logged.shut (h : v.Logged) (hs : v.Sending) {output : List WireFrame}
    (room : v.keyed = false → v.traffic.wrote.length + output.length ≤ 2) :
    Phased { v with closing := true, output } :=
  ⟨h, fun _ => ⟨hs.bytes, room, hs.keyed⟩, nofun, nofun⟩

theorem Receiving.mode (h : v.Receiving) :
    phaseOf v.handshake = WireLog.modeAt v.traffic.heard.length := by
  unfold phaseOf
  split
  case h_1 hn => rw [WireLog.modeAt, if_neg (by have := h.settled hn; omega)]
  case h_2 hs hh =>
    have hst := h.stage hs hh
    revert hst
    generalize v.traffic.heard = log
    intro hst
    cases hst with
    | silent _ unverified | greeted _ _ unverified =>
      simp [Handshake.receiveProtection, unverified, WireLog.modeAt]
    | verified _ _ verified => simp [Handshake.receiveProtection, verified, WireLog.modeAt]

section

variable {socket socket' : σ} {f : WireFrame} {reader : FrameReader}

theorem accepted_live (hs : v.socket = some socket) : v.accepted = ByteStream.accepted socket := by
  simp [accepted, hs]

theorem given_live (hs : v.socket = some socket) : v.given = ByteStream.given socket := by
  simp [given, hs]

theorem Phased.started {mode : FrameProtection} {output : List WireFrame}
    {lease : Option Reservation} (hv : v.Phased) (live : v.socket.isSome)
    (idle : v.writer.bytes = []) (hm : mode = WireLog.modeAt v.traffic.wrote.length)
    (shape : f.InMode mode)
    (next : v.keyed = false ∧ v.output = f :: output ∨ v.keyed = true ∧ v.handshake = none) :
    Phased { v with
      output
      writer := { v.writer with
        reservation := lease, bytes := FrameWriter.serialize f, offset := 0 }
      writing := some (f.header.frameType, f.header.streamId, mode)
      traffic := { v.traffic with wrote := v.traffic.wrote ++ [(mode, f)] } } := by
  have hs := hv.sending live
  have hb : v.accepted = wireBytes (WireLog.frames v.traffic.wrote) := by
    simpa [idle] using hs.bytes
  refine ⟨hv.logged.start hm shape, fun _ => ⟨?_, ?_, ?_⟩, fun _ opened h hh => ?_, fun _ opened => ?_⟩
  · show v.accepted ++ _ = _
    simp [hb, WireLog.frames, wireBytes]
  · intro plain
    rcases next with ⟨-, ho⟩ | ⟨hk, -⟩
    · have hp := hs.plain plain
      simp only [ho, List.length_cons, List.length_append, List.length_nil] at hp ⊢
      omega
    · exact absurd (hk.symm.trans plain) (by decide)
  · intro keyed
    have hk := hs.keyed keyed
    simp only [List.length_append]
    omega
  · rcases next with ⟨plain, ho⟩ | ⟨-, hn⟩
    · have hp := hs.plain plain
      have hw : v.traffic.wrote.length < 2 := by simp only [ho, List.length_cons] at hp; omega
      have he := hv.opening live opened h hh
      rw [ho, show v.writer.isBusy = false by simp [FrameWriter.isBusy, idle]] at he
      have hbusy : (!(FrameWriter.serialize f).isEmpty) = true := by
        simp [FrameWriter.serialize_ne_nil]
      have hmode : mode = .untagged := by rw [hm, WireLog.modeAt, if_pos hw]
      simp only [FrameWriter.isBusy]
      rw [hbusy, hmode]
      exact he.start
    · exact absurd hh (by simp [hn])
  · have hr := hv.receiving live opened
    exact ⟨hr.bytes, hr.unfinished, hr.phase, hr.stage, hr.settled⟩

theorem Logged.put {output rest : List UInt8} (h : v.Logged) (hs : v.Sending)
    (live : v.socket = some socket)
    (put : ByteStream.given socket' = ByteStream.given socket ∧
      ByteStream.accepted socket' = ByteStream.accepted socket ++ output)
    (hb : v.writer.bytes.drop v.writer.offset = output ++ rest) (writer : FrameWriter) :
    Logged { v with socket := some socket', writer } ∧
      Wire.accepted { v with socket := some socket', writer } = v.accepted ++ output ∧
      Wire.given { v with socket := some socket', writer } = v.given := by
  obtain ⟨hg, ha⟩ := put
  have hacc : Wire.accepted { v with socket := some socket', writer } = v.accepted ++ output := by
    rw [accepted_live live, accepted_live rfl, ha]
  have hgiv : Wire.given { v with socket := some socket', writer } = v.given := by
    rw [given_live live, given_live rfl, hg]
  have hsent : v.accepted ++ output <+: wireBytes (WireLog.frames v.traffic.wrote) :=
    ⟨rest, by rw [← hs.bytes, hb, List.append_assoc]⟩
  refine ⟨?_, hacc, hgiv⟩
  unfold Logged
  rw [hacc, hgiv]
  exact h.accept (List.prefix_append _ _) hsent

theorem Phased.flushed {output rest : List UInt8} (hv : v.Phased) (live : v.socket = some socket)
    (put : Put socket output socket')
    (hb : v.writer.bytes.drop v.writer.offset = output ++ rest) :
    Phased { v with
      socket := some socket'
      writer := { v.writer with offset := v.writer.offset + output.length } } := by
  have hlive : v.socket.isSome := by simp [live]
  have hs := hv.sending hlive
  obtain ⟨hl, hacc, hgiv⟩ := hv.logged.put hs live put.stream hb
    { v.writer with offset := v.writer.offset + output.length }
  refine ⟨hl, fun _ => ⟨?_, hs.plain, hs.keyed⟩, fun _ opened => hv.opening hlive opened,
    fun _ opened => ?_⟩
  · rw [hacc, ← hs.bytes, ← List.drop_drop, hb, List.append_assoc, List.drop_left]
  · have hr := hv.receiving hlive opened
    exact ⟨hgiv.trans hr.bytes, hr.unfinished, hr.phase, hr.stage, hr.settled⟩

theorem Phased.finished {handshake : Option (Handshake γ)}
    {writing : Option (FrameType × UInt32 × FrameProtection)} (hv : v.Phased)
    (live : v.socket = some socket)
    (put : Put socket (v.writer.bytes.drop v.writer.offset) socket')
    (next : v.closing = false → handshake = none ∧ v.handshake = none ∨
      ∃ h helloSent authSent, v.handshake = some h ∧
        handshake = some { h with helloSent, authSent } ∧
        Exchanging { h with helloSent, authSent } false v.traffic.wrote v.output writing) :
    Phased { v with
      socket := some socket'
      writer := { v.writer with reservation := none, bytes := [], offset := 0 }
      handshake, writing } := by
  have hlive : v.socket.isSome := by simp [live]
  have hs := hv.sending hlive
  obtain ⟨hl, hacc, hgiv⟩ := hv.logged.put hs live put.stream (List.append_nil _).symm
    { v.writer with reservation := none, bytes := [], offset := 0 }
  refine ⟨hl, fun _ => ⟨?_, hs.plain, hs.keyed⟩, fun _ opened h hh => ?_, fun _ opened => ?_⟩
  · simp only [List.drop_nil, List.append_nil]
    exact hacc.trans hs.bytes
  · rcases next opened with ⟨hn, -⟩ | ⟨h₀, helloSent, authSent, -, hn, he⟩
    · exact absurd hh (by simp [hn])
    · obtain rfl : h = _ := (Option.mem_some_iff.mp (hn ▸ hh)).symm
      exact he
  · have hr := hv.receiving hlive opened
    rcases next opened with ⟨hn, ho⟩ | ⟨h₀, helloSent, authSent, ho, hn, -⟩
    · have hphase : phaseOf handshake = phaseOf v.handshake := by rw [hn, ho]
      exact ⟨hgiv.trans hr.bytes, hphase ▸ hr.unfinished, hphase ▸ hr.phase,
        fun h hh => absurd hh (by simp [hn]), fun _ => hr.settled ho⟩
    · have hphase : phaseOf handshake = phaseOf v.handshake := by rw [hn, ho]; rfl
      refine ⟨hgiv.trans hr.bytes, hphase ▸ hr.unfinished, hphase ▸ hr.phase, fun h hh => ?_,
        fun h => absurd h (by simp [hn])⟩
      obtain rfl : h = _ := (Option.mem_some_iff.mp (hn ▸ hh)).symm
      exact (hr.stage h₀ ho).sent helloSent authSent

theorem Phased.established {h : Handshake γ} (hv : v.Phased) (live : v.socket.isSome)
    (opened : v.closing = false) (hh : v.handshake = some h) (ha : h.isAuthenticated = true) :
    ({ v with handshake := none, keyed := true, established := true } : Wire σ γ).Phased := by
  obtain ⟨⟨-, hsent⟩, hver⟩ : (h.closed = false ∧ h.authSent = true) ∧ h.peerVerified = true := by
    simpa [Handshake.isAuthenticated] using ha
  have hs := hv.sending live
  have he := hv.opening live opened h hh
  have hr := hv.receiving live opened
  obtain ⟨hkinds, hbusy⟩ := he.complete hsent
  have hwrote : v.traffic.wrote.length = 2 := by
    simpa [WireLog.kinds] using congrArg List.length hkinds
  have hheard := (hr.stage h hh).two hver
  have hbytes : v.accepted = wireBytes (WireLog.frames v.traffic.wrote) := by
    have hidle : v.writer.bytes = [] := by simpa [FrameWriter.isBusy] using hbusy
    simpa [hidle] using hs.bytes
  have hphase : phaseOf v.handshake = .tagged := by
    simp [phaseOf, hh, Handshake.receiveProtection, hver]
  have hpart := hr.unfinished
  have hmode := hr.phase
  rw [hphase] at hpart hmode
  refine ⟨hv.logged.attest ⟨?_, ?_, ?_, ?_, hver⟩,
    fun _ => ⟨hs.bytes, (by rintro ⟨⟩), fun _ => hwrote.ge⟩,
    fun _ _ _ hn => absurd hn (Option.not_mem_none _),
    fun _ _ => ⟨hr.bytes, hpart, hmode, fun _ hn => absurd hn (Option.not_mem_none _),
      fun _ => hheard.ge⟩⟩
  · rwa [List.take_of_length_le hwrote.le]
  · intro x hx
    refine he.own x.2 ?_
    obtain ⟨rest, hw⟩ := List.head?_eq_some_iff.mp hx
    simp [WireLog.frames, hw]
  · have hall : wireBytes (WireLog.frames (v.traffic.wrote.take 2)) = v.accepted := by
      rw [List.take_of_length_le hwrote.le, ← hbytes]
    exact hall ▸ List.prefix_rfl
  · rw [List.take_of_length_le hheard.le]
    exact hr.stage h hh

theorem Logged.took {input : List UInt8} (h : v.Logged) (live : v.socket = some socket)
    (took : ByteStream.given socket' = ByteStream.given socket ++ input ∧
      ByteStream.accepted socket' = ByteStream.accepted socket) (reader : FrameReader) :
    Logged { v with socket := some socket', reader } ∧
      Wire.accepted { v with socket := some socket', reader } = v.accepted ∧
      Wire.given { v with socket := some socket', reader } = v.given ++ input := by
  obtain ⟨hg, ha⟩ := took
  have hacc : Wire.accepted { v with socket := some socket', reader } = v.accepted := by
    rw [accepted_live live, accepted_live rfl, ha]
  have hgiv : Wire.given { v with socket := some socket', reader } = v.given ++ input := by
    rw [given_live live, given_live rfl, hg]
  refine ⟨?_, hacc, hgiv⟩
  unfold Logged
  rw [hacc, hgiv]
  exact h.give (List.prefix_append _ _)

theorem Phased.waited {input : List UInt8} {calls : Nat} (hv : v.Phased)
    (live : v.socket = some socket) (opened : v.closing = false)
    (took : Took socket input calls socket') (part : reader.Partial (phaseOf v.handshake))
    (mode : reader.phase = some (phaseOf v.handshake))
    (bytes : reader.taken = v.reader.taken ++ input) :
    Phased { v with socket := some socket', reader } := by
  have hlive : v.socket.isSome := by simp [live]
  have hs := hv.sending hlive
  have hr := hv.receiving hlive opened
  obtain ⟨hl, hacc, hgiv⟩ := hv.logged.took live took.stream reader
  refine ⟨hl, fun _ => ⟨?_, hs.plain, hs.keyed⟩, fun _ opened => hv.opening hlive opened,
    fun _ _ => ⟨?_, part, .inr mode, hr.stage, hr.settled⟩⟩
  · exact (congrArg (· ++ _) hacc).trans hs.bytes
  · exact hgiv.trans (by rw [hr.bytes, bytes, List.append_assoc])

def hear (v : Wire σ γ) (socket : σ) (f : WireFrame) : Wire σ γ :=
  { v with
    socket := some socket, reader := {}
    traffic := { v.traffic with heard := v.traffic.heard ++ [(phaseOf v.handshake, f)] } }

theorem Phased.hear {input : List UInt8} {calls : Nat} (hv : v.Phased)
    (live : v.socket = some socket) (opened : v.closing = false)
    (took : Took socket input calls socket') (mode : f.InMode (phaseOf v.handshake))
    (unreserved : f.reservation = none)
    (bytes : v.reader.taken ++ input = FrameWriter.serialize f) :
    (v.hear socket' f).Logged ∧ (v.hear socket' f).Sending ∧
      (v.hear socket' f).given = wireBytes (WireLog.frames (v.hear socket' f).traffic.heard) := by
  have hlive : v.socket.isSome := by simp [live]
  have hs := hv.sending hlive
  have hr := hv.receiving hlive opened
  obtain ⟨hl, hacc, hgiv⟩ := hv.logged.took live took.stream {}
  have hall : v.given ++ input =
      wireBytes (WireLog.frames (v.traffic.heard ++ [(phaseOf v.handshake, f)])) := by
    rw [hr.bytes, List.append_assoc, bytes]
    simp [WireLog.frames, wireBytes]
  refine ⟨?_, ⟨(congrArg (· ++ _) hacc).trans hs.bytes, hs.plain, hs.keyed⟩, hgiv.trans hall⟩
  exact hl.hear hr.mode mode unreserved ⟨[], by rw [List.append_nil, ← hall]; exact hgiv.symm⟩

end

end Wire

theorem Exchanging.safe {h h' : Handshake γ}
    (he : Exchanging h c.writer.isBusy c.traffic.wrote c.handshakeOutput c.writing)
    (hh : c.handshake = some h') (ha : h'.authSent = h.authSent) (safe : c.safe = true)
    (keys : c.integrity = none) : c.traffic.wrote.length ≤ 1 := by
  obtain ⟨hidle, hsend⟩ : c.writer.isBusy = false ∧ h'.authSent = false := by
    simpa [Connection.safe, keys, hh, Handshake.sendProtection] using safe
  rw [hidle] at he
  exact he.room (ha.symm.trans hsend)

theorem wire_finish (c : Connection σ γ) : c.finish.wire = c.wire.release := by
  rw [finish, wire_release, wire_onSession]

theorem nextFrame_none_wire {c' : Connection σ γ} (h : c.nextFrame = (none, c')) :
    c'.wire = c.wire := by
  rcases c.nextFrame_cases with ⟨s, -, hn⟩ | ⟨-, ⟨-, hn⟩ | ⟨f, rest, -, hn⟩⟩ <;> rw [hn] at h
  · rw [← (Prod.mk.inj h).2, wire_onSession]
  · rw [← (Prod.mk.inj h).2]
  · cases (Prod.mk.inj h).1

theorem nextFrame_some_wire {c' : Connection σ γ} {f : WireFrame} (h : c.nextFrame = (some f, c')) :
    c.session.isSome ∧ c'.wire = c.wire ∨
      c.session = none ∧ ∃ rest, c.handshakeOutput = f :: rest ∧
        c'.wire = { c.wire with output := rest } := by
  rcases c.nextFrame_cases with ⟨s, hs, hn⟩ | ⟨hs, ⟨-, hn⟩ | ⟨g, rest, ho, hn⟩⟩ <;> rw [hn] at h
  · refine .inl ⟨by simp [hs], ?_⟩
    rw [← (Prod.mk.inj h).2, wire_onSession]
  · cases (Prod.mk.inj h).1
  · obtain ⟨hf, rfl⟩ := Prod.mk.inj h
    obtain rfl := Option.some.inj hf
    exact .inr ⟨hs, rest, ho, rfl⟩

theorem Admitted.wire {c' : Connection σ γ} {f : WireFrame} {crypto : γ}
    (h : Admitted c f crypto (.ok (), c')) : ∃ mode frame,
      c.writer.bytes = [] ∧ frame.InMode mode ∧ frame.header = f.header ∧
      (c.wire.keyed = false ∧ mode = .untagged ∧ frame = f ∨
        c.wire.keyed = true ∧ mode = .tagged) ∧
      c'.wire = { c.wire with
        writer := { c.wire.writer with
          reservation := f.reservation, bytes := FrameWriter.serialize frame, offset := 0 }
        writing := some (frame.header.frameType, frame.header.streamId, mode)
        traffic := { c.wire.traffic with wrote := c.wire.traffic.wrote ++ [(mode, frame)] } } := by
  cases h with
  | @started integrity frame phase live idle shape lease same mode =>
    refine ⟨phase, frame, idle, shape, same.1, ?_, ?_⟩
    · rcases mode with ⟨rfl, hn, -, rfl⟩ | ⟨rfl, i, -, hi, -⟩
      · exact .inl ⟨by simp [Connection.wire, hn], rfl, rfl⟩
      · exact .inr ⟨by simp [Connection.wire, hi], rfl⟩
    · have hkeys : integrity.isSome = c.integrity.isSome := by
        rcases mode with ⟨-, hn, hn', -⟩ | ⟨-, i, i', hi, hi', -⟩
        · rw [hn, hn']
        · rw [hi, hi']
          rfl
      simp only [Connection.wire, hkeys, same.1]

variable [ByteStream σ]

theorem fail_phased (live : c.socket.isSome) (hl : c.wire.Logged) (hs : c.wire.Sending)
    (room : c.safe = true → c.integrity = none → c.traffic.wrote.length ≤ 1) (d : Disposition)
    (now : Instant) : (c.fail d now).wire.Phased := by
  have hroom : c.safe = true → ∀ f : WireFrame, c.wire.keyed = false →
      c.wire.traffic.wrote.length + [f].length ≤ 2 := by
    intro hsafe f hk
    have := room hsafe (by simpa [wire] using hk)
    show c.traffic.wrote.length + 1 ≤ 2
    omega
  have hempty : c.wire.keyed = false →
      c.wire.traffic.wrote.length + ([] : List WireFrame).length ≤ 2 := by
    intro hk
    have := hs.plain hk
    simp only [List.length_nil]
    omega
  have hf := c.fail_failed d now
  generalize c.fail d now = c' at hf
  cases hf with
  | aborted => exact wire_abort live _ ▸ hl.release
  | shut hsafe session =>
    rw [wire_onSession]
    exact hl.shut hs hempty
  | silent hsafe session => exact hl.shut hs hempty
  | answered hsafe session => exact hl.shut hs (hroom hsafe _)

theorem written_phased {c₀ : Connection σ γ} {socket socket' : σ} (now : Instant)
    (hv : c₀.wire.Phased) (live : c₀.socket = some socket) (busy : c₀.writer.isBusy = true)
    (put : Put socket (c₀.writer.bytes.drop c₀.writer.offset) socket') :
    ((({ c₀ with socket := some socket' } : Connection σ γ).setWriter
      { c₀.writer with reservation := none, bytes := [], offset := 0 }).written now).2.wire.Phased := by
  have hlive : c₀.wire.socket.isSome := by simp [wire, live]
  have hlog := (hv.logged.put (hv.sending hlive) live put.stream (List.append_nil _).symm
    { c₀.writer with reservation := none, bytes := [], offset := 0 }).1
  have hopen : c₀.closing = false → ∀ h, c₀.handshake = some h →
      Exchanging h true c₀.traffic.wrote c₀.handshakeOutput c₀.writing := by
    intro opened h hh
    have he := hv.opening hlive opened h hh
    rwa [show c₀.wire.writer.isBusy = true from busy] at he
  have hw := written_written ((({ c₀ with socket := some socket' } : Connection σ γ).setWriter
      { c₀.writer with reservation := none, bytes := [], offset := 0 })) now
  generalize (written (σ := σ) (γ := γ) _ now).2 = c' at hw ⊢
  cases hw with
  | unknown none =>
    refine hv.finished live put fun opened => ?_
    rcases Option.eq_none_or_eq_some c₀.wire.handshake with hh | ⟨h, hh⟩
    · exact .inl ⟨hh, hh⟩
    · obtain ⟨_, _, _, -, hw⟩ := (hopen opened h hh).writing rfl
      exact absurd (hw.symm.trans none) (by simp)
  | unsent writing keys failed =>
    rw [wire_abort rfl]
    exact hlog.release
  | rejected writing opened handshake failed =>
    obtain ⟨_, _, hs, -⟩ := (hopen opened _ handshake).sent writing
    exact absurd (congrArg Prod.fst (hs.symm.trans failed)) (by simp)
  | @sealed _ _ integrity writing keys =>
    have hkeys : integrity.isSome = c₀.wire.keyed := by
      rcases keys with ⟨h, h'⟩ | ⟨i, i', h, h', -⟩
      · rw [h']
        exact (congrArg Option.isSome h).symm
      · rw [h']
        exact (congrArg Option.isSome h).symm
    rw [wire_onSession]
    unfold wire
    rw [hkeys]
    refine hv.finished live put fun opened => ?_
    rcases Option.eq_none_or_eq_some c₀.wire.handshake with hh | ⟨h, hh⟩
    · exact .inl ⟨hh, hh⟩
    · obtain ⟨_, _, _, -, hw⟩ := (hopen opened h hh).writing rfl
      exact absurd (hw.symm.trans writing) (by simp)
  | plain writing past =>
    rw [wire_onSession]
    refine hv.finished live put fun opened => ?_
    have hn : c₀.wire.handshake = none :=
      past.resolve_left fun h => Bool.false_ne_true (opened.symm.trans h)
    exact .inl ⟨hn, hn⟩
  | sent writing opened handshake done =>
    rw [wire_onSession]
    refine hv.finished live put fun _ => .inr ?_
    obtain ⟨helloSent, authSent, hs, he⟩ := (hopen opened _ handshake).sent writing
    obtain rfl := (Prod.mk.inj (done.symm.trans hs)).2
    exact ⟨_, helloSent, authSent, handshake, rfl, he⟩

theorem delivered_phased {ι : Type} [Identity ι] {c' : Connection σ γ} {socket socket' : σ}
    {f : WireFrame} {input : List UInt8} {calls : Nat} {now : Instant} {registry : Registry}
    {identity : ι} {crypto : γ} (hc : c.Sound) (hv : c.wire.Phased) (live : c.socket = some socket)
    (opened : c.closing = false) (took : Took socket input calls socket')
    (mode : f.InMode c.receivePhase) (unreserved : f.reservation = none)
    (bytes : c.reader.taken ++ input = FrameWriter.serialize f)
    (hd : Delivered ((c.polled {} socket').heard f) f now registry identity crypto c') :
    c'.wire.Phased := by
  have hlive : c.wire.socket.isSome := by simp [wire, live]
  obtain ⟨hlog, hsend, hgiven⟩ := hv.hear live opened took mode unreserved bytes
  have hopen := hv.opening hlive opened
  have hrecv := hv.receiving hlive opened
  have hroom : ∀ {h h' : Handshake γ}, c.handshake = some h → h'.authSent = h.authSent →
      (({ (c.polled {} socket').heard f with handshake := some h' } : Connection σ γ)).safe = true →
      c.integrity = none → c.traffic.wrote.length ≤ 1 := fun hh ha hsafe hi =>
    Exchanging.safe (c := { (c.polled {} socket').heard f with handshake := some _ })
      (hopen _ hh) rfl ha hsafe hi
  cases hd with
  | unkeyed handshake keys =>
    have hk := (hc.live (by simp [live]) handshake).2
    exact absurd (show c.integrity = none from keys) (by simpa [Option.isSome_iff_ne_none] using hk)
  | @answered h h' auth identity' crypto' lease resources handshake received room =>
    have hr := h.receive_received f identity crypto
    rw [received] at hr
    cases hr with
    | @hello remote id a _ _ live unverified new kind identified pinned signed answer_eq decoded =>
      obtain ⟨_, ha, -, hkind, -⟩ := rawFrame_eq .auth a.encode rfl (by simp [maxPayloadBytes])
      obtain rfl := Except.ok.inj (answer_eq.symm.trans ha)
      have he := (hopen h handshake).answer (f := { auth with reservation := some lease }) new hkind
        (remote, id)
      refine ⟨hlog, fun _ => ⟨hsend.bytes, fun _ => he.count, hsend.keyed⟩, fun _ _ h' hh => ?_,
        fun _ _ => ⟨?_, .fresh _, .inl rfl, fun h' hh => ?_, (by rintro ⟨⟩)⟩⟩
      · obtain rfl := Option.mem_some_iff.mp hh
        exact he
      · exact hgiven.trans (List.append_nil _).symm
      · obtain rfl := Option.mem_some_iff.mp hh
        exact (hrecv.stage h handshake).greet new decoded
  | crowded handshake received =>
    rw [wire_abort rfl]
    exact Wire.Logged.release (v := { c.wire.hear socket' f with handshake := _ }) hlog
  | @verified h h' identity' crypto' handshake received =>
    have hr := h.receive_received f identity crypto
    rw [received] at hr
    cases hr with
    | auth live unverified known kind decoded signed held derived =>
      have he := hopen h handshake
      refine ⟨hlog, fun _ => ⟨hsend.bytes, hsend.plain, hsend.keyed⟩, fun _ _ h' hh => ?_,
        fun _ _ => ⟨?_, .fresh _, .inl rfl, fun h' hh => ?_, (by rintro ⟨⟩)⟩⟩
      · obtain rfl := Option.mem_some_iff.mp hh
        exact ⟨he.live, he.frames, he.own, he.hello, he.auth, he.writing⟩
      · exact hgiven.trans (List.append_nil _).symm
      · obtain rfl := Option.mem_some_iff.mp hh
        exact (hrecv.stage h handshake).verify unverified known kind decoded signed
  | @rejected h e handshake =>
    exact fail_phased (c := { (c.polled {} socket').heard f with handshake := some h.close }) rfl
      hlog ⟨hsend.bytes, hsend.plain, hsend.keyed⟩ (hroom handshake rfl) _ _
  | forged handshake keys failed =>
    rw [wire_abort rfl]
    exact Wire.Logged.release (v := { c.wire.hear socket' f with keyed := _ }) hlog
  | @taken i i' verified handshake keys ok =>
    have hk : c.integrity.isSome = true := by rw [show c.integrity = some i from keys]; rfl
    have hwire : ({ (c.polled {} socket').heard f with integrity := some i' } :
        Connection σ γ).wire = c.wire.hear socket' f := by
      simp only [wire, Wire.hear, polled, heard, hk, Option.isSome_some]
      rfl
    have hheard : Wire.Phased (c.wire.hear socket' f) := by
      refine ⟨hlog, fun _ => hsend, fun _ _ => hopen, fun _ _ => ⟨?_, .fresh _, .inl rfl, ?_, ?_⟩⟩
      · exact hgiven.trans (List.append_nil _).symm
      · intro h hh
        exact absurd (show c.handshake = some h from hh)
          (by simp [show c.handshake = none from handshake])
      · intro hn
        have := hrecv.settled hn
        simp only [Wire.hear, List.length_append]
        omega
    have hshut := hlog.shut hsend hsend.plain
    rw [← wire_onSession _ fun s => (s.receive verified registry now).2] at hwire
    unfold settle
    split_ifs
    · rw [wire_release, hwire]
      exact hlog.release
    · rw [← hwire] at hshut
      exact hshut
    · rw [hwire]
      exact hheard

end

variable {σ γ ι : Type} [ByteStream σ] [Cryptography γ] [Identity ι] {c c' : Connection σ γ}

theorem Wire.Receiving.polled (hr : c.wire.Receiving) {socket : σ}
    {out : FrameReader.Outcome × FrameReader × σ}
    (poll : c.reader.pollFrame socket c.receivePhase = out) :
    FrameReader.Polled c.receivePhase 1 c.reader socket out :=
  poll ▸ FrameReader.pollFrame_polled hr.unfinished hr.phase

theorem Wire.Phased.move (hc : c.Sound) (hv : c.wire.Phased) (h : Move ι c c') :
    c'.wire.Phased := by
  cases h with
  | tick live now =>
    rw [wire_onSession]
    exact hv
  | idle live empty =>
    rw [nextFrame_none_wire empty]
    exact hv
  | drained live free empty closing =>
    rw [wire_release, nextFrame_none_wire empty]
    exact hv.logged.release
  | @admitted c₁ _ f crypto live free next start =>
    obtain ⟨mode, frame, idle, shape, hhead, hmode, hwire⟩ := start.wire
    have hs := hv.sending live
    rw [hwire]
    rcases nextFrame_some_wire next with ⟨hsess, hw⟩ | ⟨hsess, rest, ho, hw⟩
    · obtain ⟨hh, -, hk⟩ := (hc.halves live).resolve_left fun h => by simp [h.2.1] at hsess
      have hkeyed : c.wire.keyed = true := hk
      have hidle : c.wire.writer.bytes = [] := hw ▸ idle
      rw [hw] at hmode ⊢
      obtain ⟨-, rfl⟩ := hmode.resolve_left fun h => Bool.false_ne_true (h.1.symm.trans hkeyed)
      have htwo := hs.keyed hkeyed
      exact hv.started live hidle (by rw [WireLog.modeAt, if_neg (by omega)]) shape
        (.inr ⟨hkeyed, hh⟩)
    · obtain ⟨-, -, hk⟩ := (hc.halves live).resolve_right fun h => by simp [hsess] at h
      have hkeyed : c.wire.keyed = false := by simp [wire, hk]
      have hidle : c.wire.writer.bytes = [] := by
        have := congrArg (·.writer.bytes) hw
        exact this.symm.trans idle
      rw [hw] at hmode ⊢
      obtain ⟨-, rfl, rfl⟩ := hmode.resolve_right fun h => Bool.false_ne_true (hkeyed.symm.trans h.1)
      have hroom := hs.plain hkeyed
      rw [show c.wire.output = frame :: rest from ho, List.length_cons] at hroom
      exact hv.started live hidle (by rw [WireLog.modeAt, if_pos (by omega)]) shape
        (.inl ⟨hkeyed, ho⟩)
  | @refused c₁ c₂ f crypto d live free next start =>
    have hlog : c₁.wire.Logged := by
      rcases nextFrame_some_wire next with ⟨-, hw⟩ | ⟨-, rest, -, hw⟩ <;> rw [hw] <;>
        exact hv.logged
    have hlive : c₁.socket.isSome := by
      obtain ⟨_, _, _, rfl⟩ := nextFrame_eq next
      exact live
    cases start with
    | unsealed | unstarted =>
      rw [wire_abort (by exact hlive)]
      exact Wire.Logged.release (v := { c₁.wire with keyed := _ }) hlog
  | @flushed socket socket' writer live busy flush =>
    have hp := FrameWriter.pollFlush_polled (s := socket) hc.writer.1 hc.writer.2
    rw [flush] at hp
    cases hp with
    | pending put bytes => exact hv.flushed live put bytes
  | @broken socket socket' writer e live busy flush =>
    have hp := FrameWriter.pollFlush_polled (s := socket) hc.writer.1 hc.writer.2
    rw [flush] at hp
    cases hp with
    | failed put bytes broken =>
      have hs := hv.sending (isSome_of_eq live)
      obtain ⟨hg, ha⟩ := put.stream
      obtain ⟨hg', more, rest, rfl, ha'⟩ := broken.stream
      rw [ha, List.append_assoc] at ha'
      rw [← List.append_assoc] at bytes
      rw [wire_abort rfl]
      exact (hv.logged.put hs live ⟨hg'.trans hg, ha'⟩ bytes _).1.release
  | @written socket socket' writer now live busy flush =>
    have hp := FrameWriter.pollFlush_polled (s := socket) hc.writer.1 hc.writer.2
    rw [flush] at hp
    cases hp with
    | done put => exact written_phased now hv live busy put
  | establish =>
    rcases c.establish_cases with he | ⟨h, e, h', hh, ht, he⟩
    · rw [he]
      exact hv
    · have hlive : c.wire.socket.isSome := by
        rw [Option.isSome_iff_ne_none]
        intro hn
        exact absurd ((hc.gone hn).handshake.symm.trans hh) (by simp)
      rcases h.takeEstablished_cases with ht' | ⟨r, id, keys, ha, -, -, ht'⟩
      · exact absurd (congrArg Prod.fst (ht'.symm.trans ht)) (by simp)
      rw [he]
      exact hv.established hlive (hc.opened hh ha) hh ha
  | @waiting socket socket' reader live opened keyed poll =>
    have hp := (hv.receiving (isSome_of_eq live) opened).polled poll
    cases hp with
    | pending took called part mode bytes => exact hv.waited live opened took part mode bytes
  | @faulted socket socket' reader e now live opened keyed poll =>
    have hp := (hv.receiving (isSome_of_eq live) opened).polled poll
    obtain ⟨input, hstream⟩ := hp.stream
    have hs := hv.sending (isSome_of_eq live)
    obtain ⟨hlog, hacc, -⟩ := hv.logged.took live hstream reader
    refine fail_phased (c := (c.polled reader socket').faulted e) rfl (hlog.fault ?_)
      ⟨(congrArg (· ++ _) hacc).trans hs.bytes, hs.plain, hs.keyed⟩ ?_ _ _
    · cases hp <;> simp
    · intro hsafe hi
      obtain ⟨hh, -⟩ := (hc.halves (isSome_of_eq live)).resolve_right fun h => by
        simp [show c.integrity = none from hi] at h
      obtain ⟨h, hh⟩ := Option.isSome_iff_exists.mp hh
      exact (hv.opening (isSome_of_eq live) opened h hh).safe
        (c := (c.polled reader socket').faulted e) hh rfl hsafe hi
  | @ended socket socket' reader live opened keyed poll =>
    have hp := (hv.receiving (isSome_of_eq live) opened).polled poll
    obtain ⟨input, hstream⟩ := hp.stream
    have hlog := (hv.logged.took live hstream reader).1
    unfold Connection.ended
    split_ifs
    · rw [wire_finish]
      exact hlog.release
    · rw [wire_abort rfl]
      exact hlog.release
  | @delivered socket socket' reader f now registry identity crypto live opened keyed poll =>
    have hp := (hv.receiving (isSome_of_eq live) opened).polled poll
    cases hp with
    | frame took mode unreserved bytes =>
      exact delivered_phased hc hv live opened took mode unreserved bytes
        (deliver_delivered _ f now registry identity crypto)
  | finish ready =>
    rw [wire_finish]
    exact hv.logged.release
  | expired live late timed =>
    rw [wire_abort live]
    exact hv.logged.release

theorem Wire.Phased.moves (hc : c.Sound) (hv : c.wire.Phased) (h : Moves ι c c') :
    c'.wire.Phased := by
  suffices c'.Sound ∧ c'.wire.Phased from this.2
  induction h with
  | refl => exact ⟨hc, hv⟩
  | tail _ h ih => exact ⟨ih.1.move h, ih.2.move ih.1 h⟩

/-- Outside the calls of the connection its stream hands over nothing and takes nothing. -/
def Op.Faithful (c : Connection σ γ) : Op σ γ ι → Prop
  | .world socket _ _ => ∀ s ∈ c.socket, ByteStream.given socket = ByteStream.given s ∧
      ByteStream.accepted socket = ByteStream.accepted s
  | _ => True

theorem Wire.world_same {v : Wire σ γ} {socket : σ}
    (hs : ∀ s ∈ v.socket, ByteStream.given socket = ByteStream.given s ∧
      ByteStream.accepted socket = ByteStream.accepted s) :
    given { v with socket := v.socket.map fun _ => socket } = v.given ∧
      accepted { v with socket := v.socket.map fun _ => socket } = v.accepted := by
  cases hv : v.socket with
  | none => simp [given, accepted, hv]
  | some s =>
    obtain ⟨hg, ha⟩ := hs s hv
    simp [given, accepted, hv, hg, ha]

theorem Wire.Phased.world {v : Wire σ γ} (hv : v.Phased) {socket : σ}
    (hs : ∀ s ∈ v.socket, ByteStream.given socket = ByteStream.given s ∧
      ByteStream.accepted socket = ByteStream.accepted s) :
    Phased { v with socket := v.socket.map fun _ => socket } := by
  obtain ⟨hg, ha⟩ := world_same hs
  have hlive : ∀ h : (v.socket.map fun _ => socket).isSome, v.socket.isSome := by simp
  refine ⟨?_, fun live => ?_, fun live => hv.opening (hlive live), fun live opened => ?_⟩
  · unfold Logged
    rw [hg, ha]
    exact hv.logged
  · have h := hv.sending (hlive live)
    exact ⟨(congrArg (· ++ _) ha).trans h.bytes, h.plain, h.keyed⟩
  · have h := hv.receiving (hlive live) opened
    exact ⟨hg.trans h.bytes, h.unfinished, h.phase, h.stage, h.settled⟩

theorem Wire.Phased.run (hc : c.Sound) (hv : c.wire.Phased) {op : Op σ γ ι} (hf : op.Faithful c) :
    (c.run op).wire.Phased := by
  cases op with
  | poll now registry identity crypto => exact hv.moves hc (poll_moves c now registry identity crypto)
  | close =>
    by_cases hs : c.socket.isNone = true
    · rwa [Connection.run, Connection.close, abort, if_pos hs]
    · rw [Connection.run, Connection.close,
        wire_abort (by simpa [Option.isSome_iff_ne_none] using hs)]
      exact hv.logged.release
  | request call =>
    rw [Connection.run, Connection.request, wire_onSession]
    exact hv
  | popEvent =>
    rcases c.popEvent_eq with ⟨events, he⟩ | he <;> rw [Connection.run, he]
    · exact hv
    · rw [Connection.request, wire_onSession]
      exact hv
  | setHandle handle => exact hv
  | world socket outbound connections => exact hv.world hf

theorem Wire.Phased.begin {socket : σ} {options : Options} {config : TransportConfig}
    {now : Instant} {identity : ι} {crypto crypto' : γ} {resources resources' : Resources}
    {handle : ConnectionHandle}
    (h : beginShared socket options config now identity crypto resources handle =
      (.ok c, resources', crypto'))
    (fresh : ByteStream.given socket = [] ∧ ByteStream.accepted socket = []) :
    c.wire.Phased := by
  obtain ⟨_, _, lease, deadline, handshake, frame, -, -, hb, rfl⟩ := beginShared_ok h
  obtain ⟨pub, ephemeral, nonce, _, -, -, rfl, hf⟩ := Handshake.begin_ok hb
  obtain ⟨_, hf', -, hkind, -, hpay, -⟩ := rawFrame_eq .hello
    (Hello.encode ⟨pub.signingPublicKey, ephemeral.publicKey, nonce⟩) rfl (by simp [maxPayloadBytes])
  obtain rfl := Except.ok.inj (hf.symm.trans hf')
  refine ⟨⟨trivial, trivial, fun _ hn => absurd hn List.not_mem_nil, (by rintro ⟨⟩), ?_, ?_,
    (by rintro ⟨⟩)⟩, fun _ => ⟨?_, fun _ => ?_, (by rintro ⟨⟩)⟩, fun _ _ h hh => ?_,
    fun _ _ => ⟨?_, .fresh _, .inl rfl, fun h hh => ?_, (by rintro ⟨⟩)⟩⟩
  · simp [Wire.accepted, wire, fresh.2]
  · simp [Wire.given, wire, WireLog.frames]
  · simp [Wire.accepted, wire, fresh.2, WireLog.frames]
  · simp [wire]
  · obtain rfl := Option.mem_some_iff.mp hh
    exact ⟨rfl, by simp [WireLog.kinds, wire, hkind], by simp [WireLog.frames, wire, hpay], rfl, rfl,
      (by rintro ⟨⟩)⟩
  · simp [Wire.given, wire, fresh.1, WireLog.frames, FrameReader.taken]
  · obtain rfl := Option.mem_some_iff.mp hh
    exact .silent rfl rfl

end Connection

end TalkSphere
