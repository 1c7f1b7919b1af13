import TalkSphere.ConnectionCourse
import TalkSphere.PhaseAgreement

/-! The normal end of a connection. A poll finishes a connection when its GOAWAY is
written, its streams are closed and nothing is left to write; every other end has a
failure. -/

namespace TalkSphere

open Relation (ReflTransGen)
open Connection (Op Move Moves Course Leads)

/-- A connection with all events it has queued so far, read or not. -/
structure Journal (σ γ : Type) [Cryptography γ] where
  connection : Connection σ γ
  log : List Event

theorem Call.ordinary_of_stream {call : Call} (hk : call.isStream = true)
    (hr : ¬ call.isRead = true) : call.isOrdinary = true ∧ call.Unreported := by
  cases call with
  | open_ | send | end_ | cancel | ping | drain => exact ⟨rfl, nofun⟩
  | popEvent | popStreamEvent => exact absurd rfl hr
  | _ => cases hk

namespace Session

variable {s s' : Session} {ok : Call → Prop} {log : List Event}

theorem conducts_sound (h : ReflTransGen (Conduct ok) s s') (hs : s.Sound) : s'.Sound := by
  induction h with
  | refl => exact hs
  | tail _ h ih => exact h.sound ih

theorem conducts_other (h : ReflTransGen (Conduct ok) s s') (hs : s.Sound) :
    Emits Event.Other s s' := by
  induction h with
  | refl => exact .nothing rfl
  | tail hr h ih => exact ih.trans (h.other (conducts_sound hr hs))

theorem conducts_tracked (ht : Tracked log s) (h : ReflTransGen (Conduct ok) s s') (hs : s.Sound) :
    Tracked (log ++ s'.events.drop s.events.length) s' := by
  induction h with
  | refl => simpa using ht
  | @tail s₁ s' hr h ih =>
    have hs₁ := conducts_sound hr hs
    obtain ⟨old, ho, -⟩ := conducts_other hr hs
    obtain ⟨new, hn, -⟩ := h.other hs₁
    have hnext := ih.conduct hs₁ h
    rw [hn, ho] at hnext ⊢
    simpa [List.append_assoc] using hnext

theorem conducts_silent (h : ReflTransGen (Conduct ok) s s') (hs : s.Sound)
    (hc : s.closed = true) : s'.closed = true ∧ s'.events = s.events := by
  induction h with
  | refl => exact ⟨hc, rfl⟩
  | tail hr h ih =>
    obtain ⟨hclosed, hevents⟩ := h.silent (conducts_sound hr hs) ih.1
    exact ⟨hclosed, hevents.trans ih.2⟩

theorem conducts_written (h : ReflTransGen (Conduct ok) s s') (hs : s.Sound)
    (hw : s'.goawayWritten = true) :
    s.goawayWritten = true ∨ ∃ id, ok (.sent .goAway id) := by
  induction h with
  | refl => exact .inl hw
  | tail hr h ih =>
    rcases h.written (conducts_sound hr hs) hw with hw | hw
    · exact ih hw
    · exact .inr hw

theorem perform_read (s : Session) {call : Call} (hq : call.isRead = true) :
    ∃ events, s.perform call = { s with events } ∧ events.length ≤ s.events.length := by
  cases call with
  | popEvent =>
    refine ⟨s.events.tail, ?_, by simp⟩
    show s.popEvent.2 = _
    rw [popEvent_eq]
  | popStreamEvent owner =>
    show ∃ events, (s.popStreamEvent owner).2 = _ ∧ _
    unfold popStreamEvent
    split
    · exact ⟨s.events, rfl, le_rfl⟩
    · exact ⟨_, rfl, (List.eraseIdx_sublist _ _).length_le⟩
  | _ => cases hq

end Session

namespace Connection

section

variable {σ γ : Type} [Cryptography γ] {c c' : Connection σ γ}

theorem pending_of_session {s : Session} (h : c.session = some s) :
    c.pending = c.events ++ s.events := by
  simp [pending, h]

theorem pending_of_early (h : c.session = none) : c.pending = c.events := by
  simp [pending, h]

theorem readyToClose_session {s : Session} (hs : c.session = some s)
    (ready : c.readyToClose = true) : s.closed = false ∧ s.goawayWritten = true ∧
      s.streams.isEmpty = true ∧ s.outbound = [] ∧ c.writer.isBusy = false := by
  simpa [readyToClose, Session.readyToClose, hs, and_assoc] using ready

theorem Voice.still_over (h : Voice c c') (hs : c.session = none) (ho : c.ceased = true) :
    c'.ceased = true := by
  obtain ⟨events, -, -, he⟩ := h.heard (.of_early hs)
  rw [ho] at he
  generalize c'.ceased = ceased at he ⊢
  cases he
  rfl

structure Reads (c c' : Connection σ γ) : Prop where
  pending : c'.pending.length ≤ c.pending.length
  events : c'.events <:+ c.events
  early : c.session = none → c'.session = none
  ceased : c'.ceased = c.ceased
  session : ∀ s, c.session = some s → ∃ resources call, call.isRead = true ∧
    c'.session = some ((s.setResources resources).perform call)

theorem Reads.request (c : Connection σ γ) {call : Call} (hq : call.isRead = true) :
    Reads c (c.request call) := by
  rcases Option.eq_none_or_eq_some c.session with hs | ⟨s, hs⟩
  · rw [Connection.request, onSession_none hs]
    exact ⟨le_rfl, List.suffix_rfl, id, rfl, fun s h => absurd (hs.symm.trans h) (by rintro ⟨⟩)⟩
  · obtain ⟨events, he, hl⟩ := Session.perform_read (s.setResources c.resources) hq
    refine ⟨?_, List.suffix_rfl, fun h => absurd (hs.symm.trans h) (by rintro ⟨⟩), ?_, fun t ht => ?_⟩
    · rw [Connection.request, onSession_some hs, he, pending_of_session hs, pending_of_session rfl]
      simpa [Session.setResources] using hl
    · rw [Connection.request, onSession_some hs, he, over_of_session hs, over_of_session rfl]
      rfl
    · obtain rfl := Option.some.inj (hs.symm.trans ht)
      exact ⟨c.resources, call, hq, by rw [Connection.request, onSession_some hs]⟩

theorem Reads.popEvent (c : Connection σ γ) (hq : ∀ s, c.session = some s → c.events = []) :
    Reads c c.popEvent.2 := by
  cases he : c.events with
  | nil =>
    have hp : c.popEvent.2 = c.request .popEvent := by
      simp only [Connection.popEvent, he, Connection.request, Connection.onSession, withSession]
      cases c.session <;> rfl
    rw [hp]
    exact .request c rfl
  | cons e rest =>
    have hnone : c.session = none := by
      rcases Option.eq_none_or_eq_some c.session with hs | ⟨s, hs⟩
      · exact hs
      · exact absurd (he.symm.trans (hq s hs)) (by rintro ⟨⟩)
    have hp : c.popEvent.2 = { c with events := rest } := by simp only [Connection.popEvent, he]
    rw [hp]
    refine ⟨?_, by rw [he]; exact List.suffix_cons e rest, id, rfl,
      fun s h => absurd (hnone.symm.trans h) (by rintro ⟨⟩)⟩
    rw [pending_of_early hnone, pending_of_early (by exact hnone), he]
    simp

end

end Connection

namespace Journal

section

variable {σ γ : Type} [Cryptography γ] {j : Journal σ γ} {c : Connection σ γ}

def becomes (j : Journal σ γ) (c : Connection σ γ) : Journal σ γ :=
  ⟨c, j.log ++ c.pending.drop j.connection.pending.length⟩

theorem becomes_log {events : List Event} (h : c.pending = j.connection.pending ++ events) :
    (j.becomes c).log = j.log ++ events := by
  rw [becomes, h, List.drop_left]

theorem becomes_becomes {c' : Connection σ γ} (h : j.connection.pending <+: c.pending)
    (h' : c.pending <+: c'.pending) : (j.becomes c).becomes c' = j.becomes c' := by
  obtain ⟨a, ha⟩ := h
  obtain ⟨b, hb⟩ := h'
  simp [becomes, ← hb, ← ha]

def Over (j : Journal σ γ) : Prop := ∃ s, j.connection.session = some s ∧ s.closed = true

theorem not_over (hs : j.connection.session = none) : ¬ j.Over := by
  rintro ⟨t, ht, -⟩
  exact absurd (hs.symm.trans ht) nofun

def Plainly (j j' : Journal σ γ) : Prop := ∃ events, j'.log = j.log ++ events ∧
  (∀ e ∈ events, e.Other) ∧ (j.Over → j'.Over ∧ events = [])

end

variable {σ γ ι : Type} [ByteStream σ] [Cryptography γ] [Identity ι] {j j' : Journal σ γ}

/-- What every run keeps. Before there is a session the history is silent until the
connection fails, and then it is the history of a session. -/
structure Kept (j : Journal σ γ) : Prop where
  sound : j.connection.Sound
  phased : j.connection.wire.Phased
  backed : j.connection.wire.Backed
  failed : j.connection.session = none →
    ∀ e ∈ j.log, ∃ id failure, e = .connectionClosed id (some failure)
  silent : j.connection.session = none → j.connection.ceased = false →
    j.log = [] ∧ j.connection.events = []
  quiet : ∀ s, j.connection.session = some s → j.connection.events = []
  spent : j.connection.session.isSome → j.connection.handshakeOutput = []
  tracked : ∀ s, j.connection.session = some s → Session.Tracked j.log s
  goaway : ∀ s, j.connection.session = some s → s.goawayWritten = true →
    ∃ x ∈ j.connection.traffic.wrote, x.2.header.frameType = .goAway

variable (ι) in
/-- One move of a poll, or one operation besides the polls. -/
inductive Step : Journal σ γ → Journal σ γ → Prop
  | move {j : Journal σ γ} {c : Connection σ γ} (h : Move ι j.connection c) : Step j (j.becomes c)
  | op {j : Journal σ γ} (op : Op σ γ ι) (offered : op.Offered) (faithful : op.Faithful j.connection)
      (apart : ∀ now registry identity crypto, op ≠ .poll now registry identity crypto) :
      Step j (j.becomes (j.connection.run op))

inductive Effect (c c' : Connection σ γ) : Prop
  | goes (course : Course c.Reports c c')
      (ceased : c.session = none → c.ceased = true → c'.ceased = true)
  | reads (h : Connection.Reads c c')

theorem Effect.of_op {c : Connection σ γ} (hq : ∀ s, c.session = some s → c.events = [])
    {op : Op σ γ ι} (offered : op.Offered)
    (apart : ∀ now registry identity crypto, op ≠ .poll now registry identity crypto) :
    Effect c (c.run op) := by
  have hok : ∀ call : Call, call.Unreported → c.Reports call := fun _ => .of_unreported
  cases op with
  | poll now registry identity crypto => exact absurd rfl (apart now registry identity crypto)
  | close => exact .goes (.abort hok (.refl c) _) (Connection.Voice.close c).still_over
  | request call =>
    by_cases hr : call.isRead = true
    · exact .reads (.request c hr)
    · obtain ⟨ordinary, hu⟩ := Call.ordinary_of_stream offered hr
      refine .goes (.leads (.onSession c call ordinary (hok call hu))) fun hs ho => ?_
      rw [Connection.run, Connection.request, Connection.onSession_none hs]
      exact ho
  | popEvent => exact .reads (.popEvent c hq)
  | setHandle handle => exact .goes (.leads (.same rfl rfl)) fun _ ho => ho
  | world socket outbound connections =>
    have hover : (c.run (.world socket outbound connections : Op σ γ ι)).ceased = c.ceased :=
      Connection.over_congr rfl rfl (by simp [Connection.run])
    exact .goes (.leads (.same rfl rfl)) fun _ ho => hover.trans ho

theorem adds_op (c : Connection σ γ) (op : Op σ γ ι)
    (apart : ∀ now registry identity crypto, op ≠ .poll now registry identity crypto) :
    c.wire.Adds (c.run op).wire := by
  cases op with
  | poll now registry identity crypto => exact absurd rfl (apart now registry identity crypto)
  | close => exact Connection.adds_abort c _
  | request call =>
    rw [Connection.run, Connection.request, Connection.wire_onSession]
    exact .refl _
  | popEvent =>
    rcases c.popEvent_eq with ⟨events, he⟩ | he <;> rw [Connection.run, he]
    · exact .refl _
    · rw [Connection.request, Connection.wire_onSession]
      exact .refl _
  | setHandle handle => exact .refl _
  | world socket outbound connections => exact .of_same rfl (.inl rfl) rfl fun _ => .inl rfl

theorem Step.effect (hk : j.Kept) (h : Step ι j j') : Effect j.connection j'.connection ∧
    j' = j.becomes j'.connection ∧ j'.connection.Sound ∧ j'.connection.wire.Phased ∧
    j.connection.wire.Adds j'.connection.wire := by
  cases h with
  | move h =>
    exact ⟨.goes (h.course hk.sound) (h.voice hk.sound).still_over, rfl, hk.sound.move h,
      hk.phased.move hk.sound h, h.adds hk.sound⟩
  | op op offered faithful apart =>
    exact ⟨.of_op hk.quiet offered apart, rfl, hk.sound.run offered,
      hk.phased.run hk.sound faithful, adds_op _ op apart⟩

structure Next (j : Journal σ γ) (c : Connection σ γ) : Prop where
  sound : c.Sound
  phased : c.wire.Phased
  adds : j.connection.wire.Adds c.wire

theorem Next.kept_session (hn : j.Next j'.connection) (hk : j.Kept) {s : Session}
    (hs : j'.connection.session = some s) (quiet : j'.connection.events = [])
    (spent : j'.connection.handshakeOutput = []) (tracked : Session.Tracked j'.log s)
    (goaway : s.goawayWritten = true →
      ∃ x ∈ j'.connection.traffic.wrote, x.2.header.frameType = .goAway) : j'.Kept := by
  have hno : ∀ {P : Prop}, j'.connection.session = none → P := fun h => absurd (hs.symm.trans h) nofun
  refine ⟨hn.sound, hn.phased, hn.adds.backed hk.backed, fun h => hno h, fun h => hno h,
    fun _ _ => quiet, fun _ => spent, fun t ht => ?_, fun t ht => ?_⟩ <;>
    obtain rfl := Option.some.inj (hs.symm.trans ht)
  · exact tracked
  · exact goaway

theorem Next.kept_early (hn : j.Next j'.connection) (hk : j.Kept)
    (hs : j'.connection.session = none)
    (failed : ∀ e ∈ j'.log, ∃ id failure, e = .connectionClosed id (some failure))
    (silent : j'.connection.ceased = false → j'.log = [] ∧ j'.connection.events = []) : j'.Kept := by
  have hno : ∀ {P : Prop} (t : Session), j'.connection.session = some t → P :=
    fun t ht => absurd (hs.symm.trans ht) nofun
  refine ⟨hn.sound, hn.phased, hn.adds.backed hk.backed, fun _ => failed, fun _ => silent,
    fun t ht => hno t ht, fun h => ?_, fun t ht => hno t ht, fun t ht => hno t ht⟩
  exact absurd h (by simp [hs])

theorem Next.goaway {c : Connection σ γ} (hn : j.Next c)
    (h : ∃ x ∈ j.connection.traffic.wrote, x.2.header.frameType = .goAway) :
    ∃ x ∈ c.traffic.wrote, x.2.header.frameType = .goAway := by
  obtain ⟨x, hx, hkind⟩ := h
  exact ⟨x, hn.adds.wrote.subset hx, hkind⟩

theorem Next.spent {c : Connection σ γ} (hn : j.Next c) (hk : j.Kept) {s : Session}
    (hs : j.connection.session = some s) : c.handshakeOutput = [] :=
  (hn.adds.spent (by simp [Connection.wire, hs])).2 (hk.spent (Connection.isSome_of_eq hs))

theorem Kept.leads (hk : j.Kept) {c : Connection σ γ} (hn : j.Next c)
    (h : Leads j.connection.Reports j.connection c)
    (ceased : j.connection.session = none → j.connection.ceased = true → c.ceased = true) :
    (j.becomes c).Kept ∧ j.Plainly (j.becomes c) := by
  rcases Option.eq_none_or_eq_some j.connection.session with hs | ⟨s, hs⟩
  · have hs' := h.early hs
    have hp : c.pending = j.connection.pending ++ [] := by
      rw [Connection.pending_of_early hs, Connection.pending_of_early hs', h.events, List.append_nil]
    have hlog : (j.becomes c).log = j.log := (becomes_log hp).trans (List.append_nil _)
    refine ⟨Next.kept_early (by exact hn) hk hs' (hlog ▸ hk.failed hs) fun ho => ?_,
      [], becomes_log hp, nofun, fun hover => absurd hover (not_over hs)⟩
    have ho' : j.connection.ceased = false := by
      by_contra hover
      exact absurd ((ceased hs (by simpa using hover)).symm.trans ho) nofun
    rw [hlog]
    exact ⟨(hk.silent hs ho').1, h.events.trans (hk.silent hs ho').2⟩
  · obtain ⟨s', hs', hg⟩ := h.goes s hs
    have hsound := hk.sound.session s hs
    obtain ⟨more, hmore, hother⟩ := Session.conducts_other hg hsound
    have hq := h.events.trans (hk.quiet s hs)
    have hlog : (j.becomes c).log = j.log ++ more := by
      apply becomes_log
      rw [Connection.pending_of_session hs, Connection.pending_of_session hs', hk.quiet s hs, hq, hmore]
      rfl
    refine ⟨Next.kept_session (by exact hn) hk hs' hq (hn.spent hk hs) ?_ fun hw => hn.goaway ?_,
      more, hlog, hother, ?_⟩
    · have ht := Session.conducts_tracked (hk.tracked s hs) hg hsound
      rw [hmore, List.drop_left] at ht
      rwa [hlog]
    · -- the report of a GOAWAY comes from the frame the writer had
      rcases Session.conducts_written hg hsound hw with hw | ⟨id, hr⟩
      · exact hk.goaway s hs hw
      · obtain ⟨phase, hphase⟩ := hr id rfl
        exact hk.backed _ _ _ hphase
    · rintro ⟨t, ht, hclosed⟩
      obtain rfl := Option.some.inj (hs.symm.trans ht)
      obtain ⟨hclosed', hevents⟩ := Session.conducts_silent hg hsound hclosed
      exact ⟨⟨s', hs', hclosed'⟩, by simpa [hmore] using hevents⟩

theorem Kept.fails (hk : j.Kept) {c : Connection σ γ} (hn : j.Next c) {id : ConnectionId}
    {failure : Failure} (hs : j.connection.session = none) (hs' : c.session = none)
    (events : c.events = j.connection.events ++ [.connectionClosed id (some failure)])
    (ceased : c.ceased = true) : (j.becomes c).Kept ∧ j.Plainly (j.becomes c) := by
  have hlog : (j.becomes c).log = j.log ++ [.connectionClosed id (some failure)] := by
    apply becomes_log
    rw [Connection.pending_of_early hs, Connection.pending_of_early hs', events]
  refine ⟨Next.kept_early (by exact hn) hk hs' ?_ fun ho => absurd (ceased.symm.trans ho) nofun,
    _, hlog, ?_, fun hover => absurd hover (not_over hs)⟩
  · rw [hlog]
    intro e he
    rcases List.mem_append.mp he with he | he
    · exact hk.failed hs e he
    · exact ⟨id, failure, List.mem_singleton.mp he⟩
  · rintro e he id' rfl
    cases List.mem_singleton.mp he

theorem Kept.handed (hk : j.Kept) (early : j.connection.session = none)
    (opened : j.connection.ceased = false)
    (sent : ∃ h ∈ j.connection.handshake, h.authSent = true) :
    j.connection.handshakeOutput = [] := by
  obtain ⟨h, hh, ha⟩ := sent
  obtain ⟨hclosing, hsocket⟩ : j.connection.closing = false ∧ j.connection.socket.isNone = false := by
    rw [Connection.over_of_early early] at opened
    simpa using opened
  have live : j.connection.socket.isSome := by simpa [Option.isSome_iff_ne_none] using hsocket
  have he := hk.phased.opening live hclosing h hh
  have hlen : j.connection.traffic.wrote.length = 2 := by
    simpa [WireLog.kinds, Connection.wire] using congrArg List.length (he.complete ha).1
  have hcount : j.connection.traffic.wrote.length + j.connection.handshakeOutput.length ≤ 2 := he.count
  exact List.eq_nil_of_length_eq_zero (by omega)

theorem Kept.starts (hk : j.Kept) {c : Connection σ γ} (hn : j.Next c) {role : ConnectionRole}
    {s : Session} (before : j.connection.session = none) (opened : j.connection.ceased = false)
    (fresh : s.Fresh role) (after : c.session = some s) (events : c.events = j.connection.events)
    (spent : c.handshakeOutput = []) : (j.becomes c).Kept ∧ j.Plainly (j.becomes c) := by
  obtain ⟨hlog, hq⟩ := hk.silent before opened
  have hlog' : (j.becomes c).log = j.log ++ s.events := by
    apply becomes_log
    rw [Connection.pending_of_early before, Connection.pending_of_session after, events]
  refine ⟨Next.kept_session (by exact hn) hk after (events.trans hq) spent ?_ ?_, _, hlog', ?_,
    fun hover => absurd hover (not_over before)⟩
  · rw [hlog', hlog]
    exact .fresh fresh
  all_goals obtain ⟨handle, localIdentity, peerIdentity, resources, rfl⟩ := fresh
  · nofun
  · rintro e he id rfl
    cases List.mem_singleton.mp he

theorem Kept.reads (hk : j.Kept) {c : Connection σ γ} (hn : j.Next c)
    (h : Connection.Reads j.connection c) : (j.becomes c).Kept ∧ j.Plainly (j.becomes c) := by
  have hlog : (j.becomes c).log = j.log := by
    rw [becomes, List.drop_eq_nil_of_le h.pending, List.append_nil]
  rcases Option.eq_none_or_eq_some j.connection.session with hs | ⟨s, hs⟩
  · refine ⟨Next.kept_early (by exact hn) hk (h.early hs) (hlog ▸ hk.failed hs) fun ho => ?_,
      [], by rw [hlog, List.append_nil], nofun, fun hover => absurd hover (not_over hs)⟩
    obtain ⟨hnil, hq⟩ := hk.silent hs (h.ceased.symm.trans ho)
    exact ⟨hlog.trans hnil, List.suffix_nil.mp (hq ▸ h.events)⟩
  · obtain ⟨resources, call, hr, hs'⟩ := h.session s hs
    obtain ⟨events, he, -⟩ := Session.perform_read (s.setResources resources) hr
    have hq : c.events = [] := List.suffix_nil.mp (hk.quiet s hs ▸ h.events)
    refine ⟨Next.kept_session (by exact hn) hk hs' hq (hn.spent hk hs) ?_ fun hw => hn.goaway ?_,
      [], by rw [hlog, List.append_nil], nofun, ?_⟩
    · rw [hlog]
      have hsound := hk.sound.session s hs
      have hset : Session.Tracked j.log (s.setResources resources) :=
        (hk.tracked s hs).taken hsound s.lastOutput s.outbound resources
      exact hset.read (hsound.withResources resources) hr
    · rw [he] at hw
      exact hk.goaway s hs hw
    · rintro ⟨t, ht, hclosed⟩
      obtain rfl := Option.some.inj (hs.symm.trans ht)
      exact ⟨⟨_, hs', by rw [he]; exact hclosed⟩, rfl⟩

/-- Nothing is left to do and nothing is left to write. -/
structure Complete (j : Journal σ γ) (s : Session) : Prop where
  session : j.connection.session = some s
  goaway : ∃ x ∈ j.connection.traffic.wrote, x.2.header.frameType = .goAway
  written : j.connection.wire.accepted = wireBytes (WireLog.frames j.connection.traffic.wrote)
  empty : s.outbound = [] ∧ j.connection.handshakeOutput = [] ∧ j.connection.writer.isBusy = false
  streams : ∀ context stream protocol, .streamOpened context stream protocol ∈ j.log →
    ∃ outcome, .streamClosed stream outcome ∈ j.log

/-- A normal closure: pings that wait are answered, and no stream is closed by it. -/
def Closes (j j' : Journal σ γ) (s : Session) : Prop :=
  ∃ pings, j'.log = j.log ++ pings ++ [.connectionClosed s.handle.id none] ∧
    ∀ e ∈ pings, ∃ token outcome, e = .pingFinished s.handle.id token outcome

theorem Kept.complete (hk : j.Kept) {s : Session} (hs : j.connection.session = some s)
    (ready : j.connection.readyToClose = true) : j.Complete s := by
  obtain ⟨hopen, hwritten, hempty, hout, hidle⟩ := Connection.readyToClose_session hs ready
  have live : j.connection.socket.isSome := by
    by_contra hg
    have hclosed := hk.sound.shut (.inr (by simpa using hg)) s hs
    exact absurd (hopen.symm.trans hclosed) nofun
  refine ⟨hs, hk.goaway s hs hwritten, ?_, ⟨hout, hk.spent (Connection.isSome_of_eq hs), hidle⟩,
    fun context stream protocol hm => ?_⟩
  · have hnone : j.connection.writer.bytes = [] := by simpa [FrameWriter.isBusy] using hidle
    have hb := (hk.phased.sending live).bytes
    rwa [show j.connection.wire.writer.bytes = [] from hnone, List.drop_nil, List.append_nil] at hb
  · exact (hk.tracked s hs).closed_streams hm (Std.TreeMap.getElem?_of_isEmpty hempty)

theorem closingEvents_empty {s : Session} (h : s.streams.isEmpty = true) (failure : Option Failure) :
    ∃ pings, s.closingEvents failure = pings ++ [.connectionClosed s.handle.id failure] ∧
      ∀ e ∈ pings, ∃ token outcome, e = .pingFinished s.handle.id token outcome := by
  have hnil : s.streams.toList = [] := by
    rw [← List.isEmpty_iff, Std.TreeMap.isEmpty_toList, h]
  refine ⟨_, by rw [Session.closingEvents, hnil, List.map_nil, List.append_nil], fun e he => ?_⟩
  obtain ⟨x, -, rfl⟩ := List.mem_map.mp he
  exact ⟨x.1, _, rfl⟩

theorem Kept.ends (hk : j.Kept) {c : Connection σ γ} (hn : j.Next c) {s : Session}
    {resources : Resources} (ready : j.connection.readyToClose = true)
    (before : j.connection.session = some s) (last : Option UInt32) (outbound : List WireFrame)
    (shared : Resources)
    (after : c.session = some { (s.setResources resources).close none none with
      lastOutput := last, outbound, resources := shared })
    (events : c.events = j.connection.events) :
    (j.becomes c).Kept ∧
      (j.Plainly (j.becomes c) ∨ j.Closes (j.becomes c) s ∧ (j.becomes c).Over) := by
  obtain ⟨hopen, hwritten, hempty, -⟩ := Connection.readyToClose_session before ready
  have hq := events.trans (hk.quiet s before)
  have hsound := (hk.sound.session s before).withResources resources
  have hclosed := Session.close_events (s := s.setResources resources) hopen none none
  have hlog : (j.becomes c).log = j.log ++ s.closingEvents s.drainFailure := by
    apply becomes_log
    rw [Connection.pending_of_session before, Connection.pending_of_session after, hq,
      hk.quiet s before]
    exact hclosed
  have hover : (j.becomes c).Over := ⟨_, after, (Session.close_keeps _ _ _).1⟩
  refine ⟨Next.kept_session (by exact hn) hk after hq (hn.spent hk before) ?_
    fun _ => hn.goaway (hk.goaway s before hwritten), ?_⟩
  · rw [hlog]
    have hset : Session.Tracked j.log (s.setResources resources) :=
      (hk.tracked s before).taken (hk.sound.session s before) s.lastOutput s.outbound resources
    exact (hset.close hsound hopen none).taken (Session.perform_sound hsound (.close none none)) last
      outbound shared
  · obtain ⟨pings, hp, hall⟩ := closingEvents_empty hempty s.drainFailure
    rw [hp, ← List.append_assoc] at hlog
    cases hd : s.drainFailure with
    | none => exact .inr ⟨⟨pings, hd ▸ hlog, hall⟩, hover⟩
    | some failure =>
      refine .inl ⟨pings ++ [.connectionClosed s.handle.id (some failure)], ?_, ?_, ?_⟩
      · rw [hlog, hd, List.append_assoc]
      · intro e he id h
        subst h
        rcases List.mem_append.mp he with he | he
        · obtain ⟨token, outcome, h⟩ := hall _ he
          cases h
        · cases List.mem_singleton.mp he
      · rintro ⟨t, ht, htc⟩
        obtain rfl := Option.some.inj (before.symm.trans ht)
        exact absurd (hopen.symm.trans htc) nofun

theorem Kept.step (hk : j.Kept) (h : Step ι j j') : j'.Kept ∧
    (j.Plainly j' ∨ ¬ j.Over ∧ ∃ s, j.Complete s ∧ j.Closes j' s ∧ j'.Over) := by
  obtain ⟨heffect, hj, hsound, hphased, hadds⟩ := h.effect hk
  have hn : j.Next j'.connection := ⟨hsound, hphased, hadds⟩
  rw [hj]
  cases heffect with
  | reads h => exact (hk.reads hn h).imp_right .inl
  | goes course ceased =>
    cases course with
    | leads h => exact (hk.leads hn h ceased).imp_right .inl
    | fails before after events ceased => exact (hk.fails hn before after events ceased).imp_right .inl
    | starts before opened fresh after events sent output =>
      have spent := output.trans (hk.handed before opened sent)
      exact (hk.starts hn before opened fresh after events spent).imp_right .inl
    | @ends s _ ready before last outbound shared after events =>
      obtain ⟨hk', hp | hclose⟩ := hk.ends hn ready before last outbound shared after events
      · exact ⟨hk', .inl hp⟩
      · refine ⟨hk', .inr ⟨?_, s, hk.complete before ready, hclose⟩⟩
        rintro ⟨t, ht, hclosed⟩
        obtain rfl := Option.some.inj (before.symm.trans ht)
        exact absurd ((Connection.readyToClose_session before ready).1.symm.trans hclosed) nofun

variable (ι) in
abbrev Steps : Journal σ γ → Journal σ γ → Prop := ReflTransGen (Step ι)

/-- The one place in a run where a connection closes normally. -/
structure Finish (ι : Type) [Identity ι] (start j : Journal σ γ) (s : Session)
    (before after : Journal σ γ) : Prop where
  reached : Steps ι start before
  step : Step ι before after
  later : Steps ι after j
  complete : before.Complete s
  closes : before.Closes after s
  last : j.log = after.log

theorem Kept.steps {start : Journal σ γ} (hk : start.Kept) (hlog : start.log = [])
    (h : Steps ι start j) : j.Kept ∧
      ((∀ e ∈ j.log, e.Other) ∨ j.Over ∧ ∃ s before after, Finish ι start j s before after) := by
  induction h with
  | refl => exact ⟨hk, .inl (by simp [hlog])⟩
  | @tail j j' hr h ih =>
    obtain ⟨hkept, hhist⟩ := ih
    obtain ⟨hkept', hp | ⟨hnot, s, hcomplete, hcloses, hover⟩⟩ := hkept.step h
    · refine ⟨hkept', ?_⟩
      obtain ⟨events, hevents, hother, hsilent⟩ := hp
      rcases hhist with hall | ⟨hover, s, before, after, hf⟩
      · refine .inl fun e he => ?_
        rw [hevents] at he
        exact (List.mem_append.mp he).elim (hall e) (hother e)
      · obtain ⟨hover', rfl⟩ := hsilent hover
        exact .inr ⟨hover', s, before, after, hf.reached, hf.step, hf.later.tail h, hf.complete,
          hf.closes, by rw [hevents, List.append_nil, hf.last]⟩
    · refine ⟨hkept', .inr ⟨hover, s, j, j', hr, h, .refl, hcomplete, hcloses, rfl⟩⟩

theorem pending_move {c c' : Connection σ γ} (hc : c.Sound) (h : Move ι c c') :
    c.pending <+: c'.pending := by
  cases h.course hc with
  | leads h =>
    rcases Option.eq_none_or_eq_some c.session with hs | ⟨s, hs⟩
    · have hp : c'.pending = c.pending := by
        rw [Connection.pending_of_early hs, Connection.pending_of_early (h.early hs), h.events]
      exact hp ▸ List.prefix_rfl
    · obtain ⟨s', hs', hg⟩ := h.goes s hs
      obtain ⟨more, hmore, -⟩ := Session.conducts_other hg (hc.session s hs)
      rw [Connection.pending_of_session hs, Connection.pending_of_session hs', h.events, hmore,
        ← List.append_assoc]
      exact List.prefix_append _ _
  | fails before after events =>
    rw [Connection.pending_of_early before, Connection.pending_of_early after, events]
    exact List.prefix_append _ _
  | starts before _ _ after events =>
    rw [Connection.pending_of_early before, Connection.pending_of_session after, events]
    exact List.prefix_append _ _
  | @ends s resources ready before last outbound shared after events =>
    rw [Connection.pending_of_session before, Connection.pending_of_session after, events]
    exact (List.prefix_append_right_inj _).mpr
      (Session.close_keeps (s.setResources resources) none none).2.events

theorem steps_moves {c : Connection σ γ} (hc : j.connection.Sound) (h : Moves ι j.connection c) :
    Steps ι j (j.becomes c) ∧ j.connection.pending <+: c.pending := by
  induction h with
  | refl =>
    have hself : j.becomes j.connection = j := by simp [becomes]
    rw [hself]
    exact ⟨.refl, List.prefix_rfl⟩
  | @tail c c' hr h ih =>
    have hp := pending_move (hc.moves hr) h
    refine ⟨?_, ih.2.trans hp⟩
    rw [← becomes_becomes ih.2 hp]
    exact ih.1.tail (.move h)

variable (ι) in
def Ran (j j' : Journal σ γ) : Prop := ∃ op : Op σ γ ι, op.Offered ∧ op.Faithful j.connection ∧
  j' = j.becomes (j.connection.run op)

theorem Ran.steps (hc : j.connection.Sound) (h : Ran ι j j') : Steps ι j j' := by
  obtain ⟨op, offered, faithful, rfl⟩ := h
  by_cases hp : ∃ now registry identity crypto, op = .poll now registry identity crypto
  · obtain ⟨now, registry, identity, crypto, rfl⟩ := hp
    exact (steps_moves hc (Connection.poll_moves _ now registry identity crypto)).1
  · exact .single (.op op offered faithful fun now registry identity crypto h =>
      hp ⟨now, registry, identity, crypto, h⟩)

theorem Kept.runs {start : Journal σ γ} (hk : start.Kept) (hlog : start.log = [])
    (h : ReflTransGen (Ran ι) start j) : Steps ι start j := by
  induction h with
  | refl => exact .refl
  | tail _ h ih => exact ih.trans (h.steps (hk.steps hlog ih).1.sound)

theorem Kept.begun {c : Connection σ γ} (h : Pair.Begun ι c) : Kept ⟨c, []⟩ := by
  have ho := h.orderly
  obtain ⟨_, _, _, _, _, _, _, _, _, _, hb, hs⟩ := h
  obtain ⟨early, -, hp, -⟩ := Connection.begin_silent hb
  rw [Connection.pending_of_early early] at hp
  have hwriting : c.writing = none := by
    obtain ⟨_, _, _, _, _, _, -, -, -, rfl⟩ := Connection.beginShared_ok hb
    rfl
  refine ⟨ho.sound, ho.phased, fun _ _ _ h => absurd (hwriting.symm.trans h) nofun, fun _ => nofun,
    fun _ _ => ⟨rfl, hp⟩, fun _ _ => hp, fun h => ?_, fun s h => ?_, fun s h => ?_⟩
  · exact absurd h (by simp [early])
  all_goals exact absurd (early.symm.trans h) nofun

theorem Kept.silenced (hk : j.Kept) (hover : j.Over) (h : Steps ι j j') :
    j'.Kept ∧ j'.Over ∧ j'.log = j.log := by
  induction h with
  | refl => exact ⟨hk, hover, rfl⟩
  | tail _ h ih =>
    obtain ⟨hkept, hover, hlog⟩ := ih
    obtain ⟨hkept', ⟨events, hevents, -, hsilent⟩ | ⟨hnot, -⟩⟩ := hkept.step h
    · obtain ⟨hover', rfl⟩ := hsilent hover
      exact ⟨hkept', hover', by rw [hevents, List.append_nil, hlog]⟩
    · exact absurd hover hnot

/-- A step that queues a normal closure. -/
theorem Kept.closes (hk : j.Kept) (h : Step ι j j') {id : ConnectionId}
    (hold : .connectionClosed id none ∉ j.log) (hnew : .connectionClosed id none ∈ j'.log) :
    (∃ s, j.Complete s ∧ j.Closes j' s) ∧ ∀ j'', Steps ι j' j'' → j''.log = j'.log := by
  obtain ⟨hk', ⟨events, hevents, hother, -⟩ | ⟨-, s, hcomplete, hcloses, hover⟩⟩ := hk.step h
  · rw [hevents] at hnew
    exact absurd rfl (hother _ ((List.mem_append.mp hnew).resolve_left hold) id)
  · exact ⟨⟨s, hcomplete, hcloses⟩, fun j'' h => (hk'.silenced hover h).2.2⟩

/-- When a connection reports a normal closure, the run has one step that queued it. Before
any such step the GOAWAY is on the wire with every other frame handed to the writer, no frame
waits in a queue or is partly written, and every stream that was reported open is reported
closed. The step adds the outcomes of pings and the closure, and nothing is reported after it. -/
theorem normal_closure {c : Connection σ γ} (hb : Pair.Begun ι c)
    (h : ReflTransGen (Ran ι) ⟨c, []⟩ j) {id : ConnectionId}
    (hclosed : .connectionClosed id none ∈ j.log) :
    (∃ s before after, Finish ι ⟨c, []⟩ j s before after) ∧
    ∀ before after, Steps ι ⟨c, []⟩ before → Step ι before after →
      .connectionClosed id none ∉ before.log → .connectionClosed id none ∈ after.log →
      (∃ s, before.Complete s ∧ before.Closes after s) ∧
        ∀ j', Steps ι after j' → j'.log = after.log := by
  have hk := Kept.begun hb
  refine ⟨?_, fun before after hbefore hstep => (hk.steps rfl hbefore).1.closes hstep⟩
  obtain ⟨-, hall | ⟨-, hf⟩⟩ := hk.steps rfl (hk.runs rfl h)
  · exact absurd rfl (hall _ hclosed id)
  · exact hf

def run (j : Journal σ γ) (op : Op σ γ ι) : Journal σ γ := j.becomes (j.connection.run op)

def sample : Journal Pipe MockCrypto :=
  let start : Journal Pipe MockCrypto := ⟨Pair.sample.left, []⟩
  let p := Pair.sample.turnLeft.turnRight
  let j := (start.run (Pair.carry Pair.sample.right start.connection)).run (Pair.pipePoll 1)
  let j := (j.run (Pair.carry p.right j.connection)).run (Pair.pipePoll 1)
  let j := j.run (.request (.open_ .sample ⟨0⟩) : Pair.PipeOp)
  let j := j.run (.request (.cancel ⟨0⟩ .sample .cancelled) : Pair.PipeOp)
  (j.run (.request (.drain .normal) : Pair.PipeOp)).run (Pair.pipePoll 1)

theorem sample_ran :
    ReflTransGen (Ran MockIdentity) (⟨Pair.sample.left, []⟩ : Journal Pipe MockCrypto) sample := by
  have ran : ∀ {j : Journal Pipe MockCrypto} (op : Pair.PipeOp), op.Offered →
      op.Faithful j.connection → Ran MockIdentity j (j.run op) :=
    fun op offered faithful => ⟨op, offered, faithful, rfl⟩
  have turn : ∀ (a : Connection Pipe MockCrypto) (j : Journal Pipe MockCrypto),
      ReflTransGen (Ran MockIdentity) j
        ((j.run (Pair.carry a j.connection)).run (Pair.pipePoll 1)) := fun a j =>
    (ReflTransGen.single (ran (Pair.carry a j.connection) trivial (Pair.carry_faithful _ _))).tail
      (ran (Pair.pipePoll 1) trivial trivial)
  exact ((((((turn _ _).trans (turn _ _)).tail (ran (.request (.open_ _ _)) rfl trivial)).tail
    (ran (.request (.cancel _ _ _)) rfl trivial)).tail
    (ran (.request (.drain .normal)) rfl trivial)).tail (ran (Pair.pipePoll 1) trivial trivial))

/-- A drained connection, whose one stream was cancelled, closes normally. -/
theorem normal_closure_drained : (sample.log.filterMap Event.stream?).length = 2 ∧
    .connectionClosed ⟨0⟩ none ∈ sample.log ∧ ∃ s before after,
      Finish MockIdentity (⟨Pair.sample.left, []⟩ : Journal Pipe MockCrypto) sample s before after := by
  have hclosed : .connectionClosed ⟨0⟩ none ∈ sample.log := by decide +kernel
  exact ⟨by decide +kernel, hclosed, (normal_closure Pair.sample_begun.1 sample_ran hclosed).1⟩

end Journal

end TalkSphere
