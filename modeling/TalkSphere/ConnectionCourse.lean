import TalkSphere.ConnectionVoice
import TalkSphere.SessionConduct
import TalkSphere.WireStages

/-! How a session lives in its connection: it starts with the handshake complete, its
owner conducts it, and one kind of move ends it normally. The frames handed to the writer
are on record all the while. -/

namespace TalkSphere

open Relation (ReflTransGen)

def Call.Unreported (call : Call) : Prop := ∀ id, call ≠ .sent .goAway id

namespace Connection

section

variable {σ γ : Type} [Cryptography γ] {c c₁ c' : Connection σ γ} {ok : Call → Prop}

def Reports (c : Connection σ γ) (call : Call) : Prop :=
  ∀ id, call = .sent .goAway id → ∃ phase, c.writing = some (.goAway, id, phase)

theorem Reports.of_unreported {call : Call} (h : call.Unreported) : c.Reports call :=
  fun id hc => absurd hc (h id)

/-- The session goes on, if there is one, and the connection itself says nothing. -/
structure Leads (ok : Call → Prop) (c c' : Connection σ γ) : Prop where
  early : c.session = none → c'.session = none
  goes : ∀ s, c.session = some s →
    ∃ s', c'.session = some s' ∧ ReflTransGen (Session.Conduct ok) s s'
  events : c'.events = c.events

theorem Leads.same (session : c'.session = c.session) (events : c'.events = c.events) :
    Leads ok c c' :=
  ⟨session.trans, fun s hs => ⟨s, session.trans hs, .refl⟩, events⟩

theorem Leads.refl (c : Connection σ γ) : Leads ok c c := .same rfl rfl

theorem Leads.trans (h : Leads ok c c₁) (h' : Leads ok c₁ c') : Leads ok c c' := by
  refine ⟨fun hn => h'.early (h.early hn), fun s hs => ?_, h'.events.trans h.events⟩
  obtain ⟨s₁, hs₁, hg⟩ := h.goes s hs
  obtain ⟨s', hs', hg'⟩ := h'.goes s₁ hs₁
  exact ⟨s', hs', hg.trans hg'⟩

theorem Leads.onSession (c : Connection σ γ) (call : Call) (ordinary : call.isOrdinary = true)
    (allowed : ok call) : Leads ok c (c.onSession (·.perform call)) := by
  refine ⟨fun hs => by rwa [onSession_none hs], fun s hs => ⟨_, by rw [onSession_some hs], ?_⟩, rfl⟩
  exact .tail (.single (.taken s.lastOutput s.outbound c.resources)) (.call call ordinary allowed)

theorem release_session_some {s : Session} (hs : c.session = some s) :
    ∃ last outbound resources,
      c.release.session = some { s with lastOutput := last, outbound, resources } := by
  obtain ⟨s', hs'⟩ : ∃ s', c.release.session = some s' := by
    simp [Connection.release, Connection.onSession, withSession, setWriter, clearOutput, hs]
  obtain ⟨s₀, h₀, last, outbound, resources, rfl⟩ := release_session hs'
  obtain rfl := Option.some.inj (hs.symm.trans h₀)
  exact ⟨last, outbound, resources, hs'⟩

theorem Leads.release (c : Connection σ γ) : Leads ok c c.release := by
  refine ⟨release_session_none, fun s hs => ?_, rfl⟩
  obtain ⟨last, outbound, resources, hs'⟩ := release_session_some hs
  exact ⟨_, hs', .single (.taken last outbound resources)⟩

theorem Leads.nextFrame {next : Option WireFrame} (h : c.nextFrame = (next, c')) :
    Leads ok c c' := by
  rcases c.nextFrame_cases with ⟨s, hs, hn⟩ | ⟨-, ⟨-, hn⟩ | ⟨f, rest, -, hn⟩⟩ <;>
    rw [hn] at h <;> obtain rfl := (Prod.mk.inj h).2
  · refine ⟨fun h => absurd (h.symm.trans hs) nofun, fun t ht => ?_, rfl⟩
    obtain ⟨last, outbound, hp⟩ := (t.setResources c.resources).popOutbound_eq
    refine ⟨_, ?_, .single (.taken last outbound c.resources)⟩
    rw [onSession_some ht, hp]
    rfl
  · exact .refl c
  · exact .same rfl rfl

theorem Leads.settle (c : Connection σ γ) (now : Instant) : Leads ok c (c.settle now) := by
  unfold Connection.settle
  split_ifs
  · exact .release c
  · exact .same rfl rfl
  · exact .refl c

/-- What a move does to the session and to the events of a connection. -/
inductive Course (ok : Call → Prop) (c c' : Connection σ γ) : Prop
  | leads (h : Leads ok c c')
  | fails {id : ConnectionId} {failure : Failure} (before : c.session = none)
      (after : c'.session = none)
      (events : c'.events = c.events ++ [.connectionClosed id (some failure)])
      (ceased : c'.ceased = true)
  | starts {role : ConnectionRole} {s : Session} (before : c.session = none)
      (opened : c.ceased = false) (fresh : s.Fresh role) (after : c'.session = some s)
      (events : c'.events = c.events) (sent : ∃ h ∈ c.handshake, h.authSent = true)
      (output : c'.handshakeOutput = c.handshakeOutput)
  | ends {s : Session} {resources : Resources} (ready : c.readyToClose = true)
      (before : c.session = some s) (last : Option UInt32) (outbound : List WireFrame)
      (shared : Resources) (after : c'.session = some { (s.setResources resources).close none none with
        lastOutput := last, outbound, resources := shared })
      (events : c'.events = c.events)

section

variable (hok : ∀ call : Call, call.Unreported → ok call)
include hok

theorem Course.abort (h : Leads ok c c₁) (d : Disposition) : Course ok c (c₁.abort d) := by
  unfold Connection.abort
  split_ifs with hg
  · exact .leads h
  · unfold conclude
    split_ifs with hs hc
    · have hclose := Leads.onSession c₁ (.close (some d.failure) none) rfl (hok _ nofun)
      exact .leads ((h.trans hclose).trans (.release _))
    · exact .leads (h.trans (.release _))
    · have early : c.session = none := by
        rcases Option.eq_none_or_eq_some c.session with hn | ⟨s, hn⟩
        · exact hn
        · obtain ⟨s₁, hs₁, -⟩ := h.goes s hn
          exact absurd (isSome_of_eq hs₁) hs
      have still := release_session_none (c := { c₁ with
        events := c₁.events ++ [.connectionClosed c₁.handle.id (some d.failure)] }) (h.early early)
      refine .fails early still (by rw [release_events, h.events]) ?_
      rw [over_of_early still]
      exact Bool.or_true _

theorem Course.fail (h : Leads ok c c₁) (early : c₁.session = none → c.session = none)
    (d : Disposition) (now : Instant) : Course ok c (c₁.fail d now) := by
  have hf := c₁.fail_failed d now
  generalize c₁.fail d now = c' at hf ⊢
  cases hf with
  | aborted => exact .abort hok h _
  | @shut code deadline safe session =>
    have hset : Leads ok c₁ { c₁ with deadline, closing := true }.clearOutput := .same rfl rfl
    exact .leads ((h.trans hset).trans
      (.onSession _ (.close (some d.failure) (some code)) rfl (hok _ nofun)))
  | silent safe session | answered safe session =>
    exact .fails (early session) session (by rw [h.events])
      (by rw [over_of_early (by exact session)]; rfl)

theorem Course.delivered {ι : Type} [Identity ι] {f : WireFrame} {now : Instant}
    {registry : Registry} {identity : ι} {crypto : γ} (h : Leads ok c c₁)
    (early : c₁.session = none → c.session = none)
    (hd : Delivered c₁ f now registry identity crypto c') : Course ok c c' := by
  cases hd with
  | unkeyed => exact .leads h
  | answered | verified => exact .leads (h.trans (.same rfl rfl))
  | @crowded _ h' =>
    have hset : Leads ok c₁ { c₁ with handshake := some h' } := .same rfl rfl
    exact .abort hok (h.trans hset) _
  | @rejected g e =>
    have hset : Leads ok c₁ { c₁ with handshake := some g.close } := .same rfl rfl
    exact .fail hok (h.trans hset) early _ now
  | @forged _ i' e =>
    have hset : Leads ok c₁ { c₁ with integrity := some i' } := .same rfl rfl
    exact .abort hok (h.trans hset) _
  | @taken _ i' verified =>
    have hset : Leads ok c₁ { c₁ with integrity := some i' } := .same rfl rfl
    exact .leads (((h.trans hset).trans
      (.onSession _ (.receive verified registry now) rfl (hok _ nofun))).trans (.settle _ now))

end

theorem Course.written (c c₁ : Connection σ γ) (now : Instant)
    (session : c₁.session = c.session) (events : c₁.events = c.events)
    (writing : c₁.writing = c.writing) : Course c.Reports c (c₁.written now).2 := by
  have hok : ∀ call : Call, call.Unreported → c.Reports call := fun _ => .of_unreported
  have hset : Leads c.Reports c c₁ := .same session events
  have reports : ∀ {kind : FrameType} {id : UInt32} {phase : FrameProtection},
      c₁.writing = some (kind, id, phase) → c.Reports (.sent kind id) := by
    rintro kind id phase hw id' ⟨rfl, rfl⟩
    exact ⟨phase, writing.symm.trans hw⟩
  have hw := written_written c₁ now
  generalize (c₁.written now).2 = c' at hw ⊢
  cases hw with
  | unknown => exact .leads hset
  | @unsent _ _ _ i' e =>
    have hmid : Leads c.Reports c₁ { c₁ with writing := none, integrity := some i' } := .same rfl rfl
    exact .abort hok (hset.trans hmid) _
  | @rejected _ _ h e =>
    have hmid : Leads c.Reports c₁ { c₁ with writing := none, handshake := some h.close } :=
      .same rfl rfl
    exact .fail hok (hset.trans hmid) session.symm.trans _ now
  | @sealed kind id integrity hw =>
    have hmid : Leads c.Reports c₁ { c₁ with writing := none, integrity } := .same rfl rfl
    exact .leads ((hset.trans hmid).trans (.onSession _ (.sent kind id) rfl (reports hw)))
  | @plain kind id hw =>
    have hmid : Leads c.Reports c₁ { c₁ with writing := none } := .same rfl rfl
    exact .leads ((hset.trans hmid).trans (.onSession _ (.sent kind id) rfl (reports hw)))
  | @sent kind id _ h' hw =>
    have hmid : Leads c.Reports c₁ { c₁ with writing := none, handshake := some h' } := .same rfl rfl
    exact .leads ((hset.trans hmid).trans (.onSession _ (.sent kind id) rfl (reports hw)))

theorem Course.finish (c c₁ : Connection σ γ) (session : c₁.session = c.session)
    (events : c₁.events = c.events) (writer : c₁.writer = c.writer)
    (ready : c₁.readyToClose = true) : Course ok c c₁.finish := by
  rcases Option.eq_none_or_eq_some c₁.session with hs | ⟨s, hs⟩
  · simp [readyToClose, hs] at ready
  · have hclose : (c₁.onSession fun s => s.close none none).session =
        some ((s.setResources c₁.resources).close none none) := by
      rw [onSession_some hs]
    obtain ⟨last, outbound, shared, hafter⟩ := release_session_some hclose
    have hready : c.readyToClose = true := by
      rwa [readyToClose, session, writer] at ready
    exact .ends hready (session.symm.trans hs) last outbound shared hafter events

theorem Course.establish (hc : c.Sound) : Course ok c c.establish := by
  rcases c.establish_cases with he | ⟨h, e, h', hh, ht, he⟩ <;> rw [he]
  · exact .leads (.refl c)
  · obtain ⟨early, opened⟩ := hc.starting hh ht
    have sent : h.authSent = true := by
      by_contra hn
      simp [Handshake.takeEstablished, Handshake.isAuthenticated, hn] at ht
    exact .starts early opened ⟨c.handle, e.localIdentity, e.peerIdentity, c.resources, rfl⟩ rfl rfl
      ⟨h, hh, sent⟩ rfl

def Wire.Backed (v : Wire σ γ) : Prop := ∀ kind id phase, v.writing = some (kind, id, phase) →
  ∃ x ∈ v.traffic.wrote, x.2.header.frameType = kind

/-- The record of the written frames only grows, and a session leaves nothing to the queue of
the handshake. -/
structure Wire.Adds (v v' : Wire σ γ) : Prop where
  wrote : v.traffic.wrote <+: v'.traffic.wrote
  backed : v.Backed → v'.Backed
  spent : v.established = true → v'.established = true ∧ (v.output = [] → v'.output = [])

namespace Wire.Adds

variable {v v₁ v' : Wire σ γ}

theorem of_same (wrote : v'.traffic.wrote = v.traffic.wrote)
    (writing : v'.writing = v.writing ∨ v'.writing = none)
    (established : v'.established = v.established)
    (output : v.established = true → v'.output = v.output ∨ v'.output = []) : Adds v v' := by
  refine ⟨wrote ▸ List.prefix_rfl, fun hb kind id phase h => ?_, fun he => ⟨established ▸ he, ?_⟩⟩
  · rcases writing with hw | hw <;> rw [hw] at h
    · rw [wrote]
      exact hb kind id phase h
    · cases h
  · intro hv
    rcases output he with ho | ho
    · exact ho.trans hv
    · exact ho

theorem refl (v : Wire σ γ) : Adds v v := .of_same rfl (.inl rfl) rfl fun _ => .inl rfl

theorem trans (h : Adds v v₁) (h' : Adds v₁ v') : Adds v v' :=
  ⟨h.wrote.trans h'.wrote, fun hb => h'.backed (h.backed hb), fun he =>
    ⟨(h'.spent (h.spent he).1).1, fun ho => (h'.spent (h.spent he).1).2 ((h.spent he).2 ho)⟩⟩

theorem release (v : Wire σ γ) : Adds v v.release :=
  .of_same rfl (.inr rfl) rfl fun _ => .inr rfl

theorem started (v : Wire σ γ) (mode : FrameProtection) (frame : WireFrame) (writer : FrameWriter)
    (output : List WireFrame) (rest : v.established = true → output = v.output) :
    Adds v { v with
      output, writer
      writing := some (frame.header.frameType, frame.header.streamId, mode)
      traffic := { v.traffic with wrote := v.traffic.wrote ++ [(mode, frame)] } } := by
  refine ⟨List.prefix_append _ _, fun _ kind id phase h => ?_, fun he => ⟨he, fun ho => ?_⟩⟩
  · obtain ⟨rfl, -, -⟩ := h
    exact ⟨(mode, frame), by simp, rfl⟩
  · exact (rest he).trans ho

end Wire.Adds

theorem adds_abort (c : Connection σ γ) (d : Disposition) : c.wire.Adds (c.abort d).wire := by
  by_cases hs : c.socket.isSome = true
  · rw [wire_abort hs]
    exact .release _
  · rw [Connection.abort, if_pos (by simpa using hs)]
    exact .refl _

theorem adds_fail (c : Connection σ γ) (d : Disposition) (now : Instant) :
    c.wire.Adds (c.fail d now).wire := by
  have hf := c.fail_failed d now
  generalize c.fail d now = c' at hf ⊢
  cases hf with
  | aborted => exact adds_abort c _
  | shut =>
    rw [wire_onSession]
    exact .of_same rfl (.inl rfl) rfl fun _ => .inr rfl
  | silent => exact .of_same rfl (.inl rfl) rfl fun _ => .inr rfl
  | answered safe session =>
    exact .of_same rfl (.inl rfl) rfl fun he => by simp [wire, session] at he

theorem adds_written (c : Connection σ γ) (now : Instant) : c.wire.Adds (c.written now).2.wire := by
  have hw := written_written c now
  generalize (c.written now).2 = c' at hw ⊢
  cases hw with
  | unknown => exact .refl _
  | @unsent _ _ _ i' e =>
    have hmid : c.wire.Adds (wire { c with writing := none, integrity := some i' }) :=
      .of_same rfl (.inr rfl) rfl fun _ => .inl rfl
    exact hmid.trans (adds_abort _ _)
  | @rejected _ _ h e =>
    have hmid : c.wire.Adds (wire { c with writing := none, handshake := some h.close }) :=
      .of_same rfl (.inr rfl) rfl fun _ => .inl rfl
    exact hmid.trans (adds_fail _ _ now)
  | sealed | plain | sent =>
    rw [wire_onSession]
    exact .of_same rfl (.inr rfl) rfl fun _ => .inl rfl

theorem adds_delivered {ι : Type} [Identity ι] {f : WireFrame} {now : Instant}
    {registry : Registry} {identity : ι} {crypto : γ}
    (apart : c.handshake.isSome → c.session = none ∧ c.integrity = none)
    (hd : Delivered c f now registry identity crypto c') : c.wire.Adds c'.wire := by
  cases hd with
  | unkeyed => exact .refl _
  | verified => exact .of_same rfl (.inl rfl) rfl fun _ => .inl rfl
  | answered handshake =>
    refine .of_same rfl (.inl rfl) rfl fun he => ?_
    simp [wire, (apart (isSome_of_eq handshake)).1] at he
  | @crowded _ h' =>
    have hmid : c.wire.Adds (wire { c with handshake := some h' }) :=
      .of_same rfl (.inl rfl) rfl fun _ => .inl rfl
    exact hmid.trans (adds_abort _ _)
  | @rejected h e =>
    have hmid : c.wire.Adds (wire { c with handshake := some h.close }) :=
      .of_same rfl (.inl rfl) rfl fun _ => .inl rfl
    exact hmid.trans (adds_fail _ _ now)
  | @forged _ i' e =>
    have hmid : c.wire.Adds (wire { c with integrity := some i' }) :=
      .of_same rfl (.inl rfl) rfl fun _ => .inl rfl
    exact hmid.trans (adds_abort _ _)
  | @taken _ i' verified =>
    have hmid : c.wire.Adds (wire ({ c with integrity := some i' }.onSession fun s =>
        (s.receive verified registry now).2)) := by
      rw [wire_onSession]
      exact .of_same rfl (.inl rfl) rfl fun _ => .inl rfl
    refine hmid.trans ?_
    unfold Connection.settle
    split_ifs
    · rw [wire_release]
      exact .release _
    · exact .of_same rfl (.inl rfl) rfl fun _ => .inl rfl
    · exact .refl _

end

variable {σ γ ι : Type} [Socket σ] [Cryptography γ] [Identity ι] {c c' : Connection σ γ}

theorem Move.course (hc : c.Sound) (h : Move ι c c') : Course c.Reports c c' := by
  have hok : ∀ call : Call, call.Unreported → c.Reports call := fun _ => .of_unreported
  cases h with
  | tick live now => exact .leads (.onSession c (.tick now) rfl (hok _ nofun))
  | idle live empty => exact .leads (.nextFrame empty)
  | drained live free empty closing => exact .leads ((Leads.nextFrame empty).trans (.release _))
  | @admitted c₁ _ f crypto live free next start =>
    cases start
    exact .leads ((Leads.nextFrame next).trans (.same rfl rfl))
  | @refused c₁ _ f crypto d live free next start =>
    have hnext : Leads c.Reports c c₁ := .nextFrame next
    cases start with
    | @unsealed _ i' e =>
      have hmid : Leads c.Reports c₁ (dropFrame { c₁ with integrity := some i' } f) := .same rfl rfl
      exact .abort hok (hnext.trans hmid) _
    | @unstarted integrity frame e =>
      have hmid : Leads c.Reports c₁ (dropFrame { c₁ with integrity } frame) := .same rfl rfl
      exact .abort hok (hnext.trans hmid) _
  | flushed live busy flush => exact .leads (.same rfl rfl)
  | @broken socket socket' writer e live busy flush =>
    have hmid : Leads c.Reports c ({ c with socket := some socket' }.setWriter writer) :=
      .same rfl rfl
    exact .abort hok hmid _
  | @written socket socket' writer now live busy flush =>
    exact .written c _ now rfl rfl rfl
  | establish => exact .establish hc
  | waiting live opened keyed poll => exact .leads (.same rfl rfl)
  | @faulted socket socket' reader e now live opened keyed poll =>
    have hmid : Leads c.Reports c ((c.polled reader socket').faulted e) := .same rfl rfl
    exact .fail hok hmid id _ now
  | @ended socket socket' reader live opened keyed poll =>
    unfold Connection.ended
    split_ifs with ready
    · exact .finish c _ rfl rfl rfl ready
    · have hmid : Leads c.Reports c (c.polled reader socket') := .same rfl rfl
      exact .abort hok hmid _
  | @delivered socket socket' reader f now registry identity crypto live opened keyed poll =>
    have hmid : Leads c.Reports c ((c.polled reader socket').heard f) := .same rfl rfl
    exact .delivered hok hmid id (deliver_delivered _ f now registry identity crypto)
  | finish ready => exact .finish c c rfl rfl rfl ready
  | expired live late timed => exact .abort hok (.refl c) _

theorem Move.adds (hc : c.Sound) (h : Move ι c c') : c.wire.Adds c'.wire := by
  cases h with
  | tick live now =>
    rw [wire_onSession]
    exact .refl _
  | idle live empty =>
    rw [nextFrame_none_wire empty]
    exact .refl _
  | drained live free empty closing =>
    rw [wire_release, nextFrame_none_wire empty]
    exact .release _
  | @admitted c₁ _ f crypto live free next start =>
    obtain ⟨mode, frame, -, -, -, -, hw⟩ := start.wire
    rw [hw]
    rcases nextFrame_some_wire next with ⟨-, h⟩ | ⟨hs, rest, -, h⟩ <;> rw [h]
    · exact .started c.wire mode frame _ c.wire.output fun _ => rfl
    · exact .started c.wire mode frame _ rest fun he => by simp [wire, hs] at he
  | @refused c₁ _ f crypto d live free next start =>
    have hnext : c.wire.Adds c₁.wire := by
      rcases nextFrame_some_wire next with ⟨-, h⟩ | ⟨hs, rest, -, h⟩ <;> rw [h]
      · exact .refl _
      · exact .of_same rfl (.inl rfl) rfl fun he => by simp [wire, hs] at he
    cases start with
    | @unsealed _ i' e =>
      have hmid : c₁.wire.Adds (wire (dropFrame { c₁ with integrity := some i' } f)) :=
        .of_same rfl (.inl rfl) rfl fun _ => .inl rfl
      exact (hnext.trans hmid).trans (adds_abort _ _)
    | @unstarted integrity frame e =>
      have hmid : c₁.wire.Adds (wire (dropFrame { c₁ with integrity } frame)) :=
        .of_same rfl (.inl rfl) rfl fun _ => .inl rfl
      exact (hnext.trans hmid).trans (adds_abort _ _)
  | flushed live busy flush => exact .of_same rfl (.inl rfl) rfl fun _ => .inl rfl
  | @broken socket socket' writer e live busy flush =>
    have hmid : c.wire.Adds (wire ({ c with socket := some socket' }.setWriter writer)) :=
      .of_same rfl (.inl rfl) rfl fun _ => .inl rfl
    exact hmid.trans (adds_abort _ _)
  | @written socket socket' writer now live busy flush =>
    have hmid : c.wire.Adds (wire ({ c with socket := some socket' }.setWriter writer)) :=
      .of_same rfl (.inl rfl) rfl fun _ => .inl rfl
    exact hmid.trans (adds_written _ now)
  | establish =>
    rcases c.establish_cases with he | ⟨h, e, h', hh, ht, he⟩ <;> rw [he]
    · exact .refl _
    · refine ⟨List.prefix_rfl, id, fun hs => ?_⟩
      simp [wire, (hc.starting hh ht).1] at hs
  | waiting live opened keyed poll => exact .of_same rfl (.inl rfl) rfl fun _ => .inl rfl
  | @faulted socket socket' reader e now live opened keyed poll =>
    have hmid : c.wire.Adds (wire ((c.polled reader socket').faulted e)) :=
      .of_same rfl (.inl rfl) rfl fun _ => .inl rfl
    exact hmid.trans (adds_fail _ _ now)
  | @ended socket socket' reader live opened keyed poll =>
    have hmid : c.wire.Adds (wire (c.polled reader socket')) :=
      .of_same rfl (.inl rfl) rfl fun _ => .inl rfl
    refine hmid.trans ?_
    unfold Connection.ended
    split_ifs
    · rw [wire_finish]
      exact .release _
    · exact adds_abort _ _
  | @delivered socket socket' reader f now registry identity crypto live opened keyed poll =>
    have hmid : c.wire.Adds (wire ((c.polled reader socket').heard f)) :=
      .of_same rfl (.inl rfl) rfl fun _ => .inl rfl
    exact hmid.trans (adds_delivered (by exact hc.apart)
      (deliver_delivered _ f now registry identity crypto))
  | finish ready =>
    rw [wire_finish]
    exact .release _
  | expired live late timed => exact adds_abort c _

end Connection

end TalkSphere
