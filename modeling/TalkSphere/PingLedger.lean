import TalkSphere.SessionEmits

/-! The pings of a run. For each token the ledger keeps the accepted pings, the latest
first, with every result that was reported while the ping was the latest of its token, and
the call that reported it. -/

namespace TalkSphere

open Std (TreeMap)
open Relation (ReflTransGen)

abbrev PingResult := Except Failure Duration

def finished (token : Token) (events : List Event) : List PingResult :=
  events.filterMap fun
    | .pingFinished _ t result => if t = token then some result else none
    | _ => none

theorem finished_append (token : Token) (events more : List Event) :
    finished token (events ++ more) = finished token events ++ finished token more :=
  List.filterMap_append

theorem finished_eq_nil {token : Token} {events : List Event}
    (h : ∀ e ∈ events, e.stream?.isSome = true) : finished token events = [] := by
  rw [finished, List.filterMap_eq_nil_iff]
  intro e he
  cases e with
  | pingFinished c t r => exact absurd (h _ he) nofun
  | _ => rfl

theorem finished_map {α : Type} (token : Token) (id : ConnectionId) (result : PingResult)
    (entries : List (Token × α)) :
    finished token (entries.map fun e => .pingFinished id e.1 result) =
      (entries.filter fun e => e.1 = token).map fun _ => result := by
  induction entries with
  | nil => rfl
  | cons e entries ih =>
    have hone : finished token [.pingFinished id e.1 result] =
        if e.1 = token then [result] else [] := by
      simp only [finished, List.filterMap_cons, List.filterMap_nil]
      split <;> simp_all
    rw [List.map_cons, ← List.singleton_append, finished_append, ih, hone, List.filter_cons]
    by_cases h : e.1 = token <;> simp [h]

namespace Session

variable {s s' s'' : Session} {Q Q' : Instant × Instant → PingResult → Prop} {token : Token}

/-- What a step does to the ping of one token: nothing, or it ends the ping with one
result for which `Q` holds. -/
inductive PingStep (token : Token) (Q : Instant × Instant → PingResult → Prop) (s s' : Session)
    (more : List Event) : Prop
  | idle (pings : s'.pings[token]? = s.pings[token]?) (quiet : finished token more = [])
  | ended {x : Instant × Instant} {result : PingResult} (before : s.pings[token]? = some x)
      (after : s'.pings[token]? = none) (once : finished token more = [result])
      (cause : Q x result)

def Pinged (token : Token) (Q : Instant × Instant → PingResult → Prop) (s s' : Session) : Prop :=
  ∃ more, s'.events = s.events ++ more ∧ PingStep token Q s s' more

theorem Pinged.trans (h : Pinged token Q s s') (h' : Pinged token Q s' s'') :
    Pinged token Q s s'' := by
  obtain ⟨more, he, hp⟩ := h
  obtain ⟨more', he', hp'⟩ := h'
  refine ⟨more ++ more', by rw [he', he, List.append_assoc], ?_⟩
  cases hp with
  | idle pings quiet =>
    cases hp' with
    | idle pings' quiet' =>
      exact .idle (pings'.trans pings) (by rw [finished_append, quiet, quiet']; rfl)
    | ended before after once cause =>
      exact .ended (pings ▸ before) after (by rw [finished_append, quiet, once]; rfl) cause
  | ended before after once cause =>
    cases hp' with
    | idle pings' quiet' =>
      exact .ended before (pings'.trans after) (by rw [finished_append, once, quiet']; rfl) cause
    | ended before' => exact absurd (after.symm.trans before') nofun

theorem Pinged.mono (h : Pinged token Q s s') (hq : ∀ x r, Q x r → Q' x r) :
    Pinged token Q' s s' := by
  obtain ⟨more, he, hp⟩ := h
  refine ⟨more, he, ?_⟩
  cases hp with
  | idle pings quiet => exact .idle pings quiet
  | ended before after once cause => exact .ended before after once (hq _ _ cause)

theorem Pinged.apart (pings : s'.pings = s.pings)
    (h : Emits (fun e => e.stream?.isSome = true) s s') : Pinged token Q s s' := by
  obtain ⟨more, he, hm⟩ := h
  exact ⟨more, he, .idle (by rw [pings]) (finished_eq_nil hm)⟩

theorem Pinged.plain (pings : s'.pings = s.pings) (h : Emits Event.Plain s s') :
    Pinged token Q s s' :=
  .apart pings (h.mono fun _ he => he.1)

theorem Pinged.worked {I : UInt32 → Prop} {n : Nat} (works : Works I n s s') (hs : s.Sound) :
    Pinged token Q s s' :=
  .plain works.keeps.pings (works.emits hs)

theorem tick_pinged (s : Session) (now : Instant) : Pinged token
    (fun x r => x.2 ≤ now ∧ r = .error ⟨.local_, .deadlineExceeded⟩) s (s.tick now) := by
  refine ⟨_, rfl, ?_⟩
  have hkeys := FiniteMap.filter_toList_key s.pings token
  have hfin : finished token (((s.pings.toList.filter fun e => e.2.2 ≤ now).map Prod.fst).map
      fun t => .pingFinished s.handle.id t (.error ⟨.local_, .deadlineExceeded⟩)) =
      ((s.pings[token]?.map fun x => (token, x)).toList.filter fun e => e.2.2 ≤ now).map
        fun _ => .error ⟨.local_, .deadlineExceeded⟩ := by
    rw [List.map_map, ← hkeys, List.filter_filter]
    have h := finished_map token s.handle.id (.error ⟨.local_, .deadlineExceeded⟩)
      (s.pings.toList.filter fun e => e.2.2 ≤ now)
    rw [List.filter_filter] at h
    simp only [Bool.and_comm] at h ⊢
    exact h
  have hmem : token ∈ (s.pings.toList.filter fun e => e.2.2 ≤ now).map Prod.fst ↔
      ∃ x, s.pings[token]? = some x ∧ x.2 ≤ now := by
    simp only [List.mem_map, List.mem_filter, decide_eq_true_eq]
    constructor
    · rintro ⟨⟨t, x⟩, ⟨hm, hx⟩, rfl⟩
      exact ⟨x, TreeMap.mem_toList_iff_getElem?_eq_some.mp hm, hx⟩
    · rintro ⟨x, hm, hx⟩
      exact ⟨(token, x), ⟨TreeMap.mem_toList_iff_getElem?_eq_some.mpr hm, hx⟩, rfl⟩
  by_cases hx : ∃ x, s.pings[token]? = some x ∧ x.2 ≤ now
  · obtain ⟨x, hp, hle⟩ := hx
    refine .ended hp ?_ ?_ ⟨hle, rfl⟩
    · simp only [tick, FiniteMap.getElem?_foldl_erase]
      rw [if_pos (hmem.mpr ⟨x, hp, hle⟩)]
    · rw [hfin, hp]
      simp [hle]
  · refine .idle ?_ ?_
    · simp only [tick, FiniteMap.getElem?_foldl_erase]
      rw [if_neg fun h => hx (hmem.mp h)]
    rw [hfin]
    cases hp : s.pings[token]? with
    | none => rfl
    | some x =>
      have hlt : ¬ x.2 ≤ now := fun hle => hx ⟨x, hp, hle⟩
      simp [hlt]

theorem tick_pending {now : Instant} {x : Instant × Instant}
    (h : (s.tick now).pings[token]? = some x) : now < x.2 := by
  by_contra hle
  have hp := tick_pings s now token x h
  simp only [tick, FiniteMap.getElem?_foldl_erase] at h
  rw [if_pos] at h
  · cases h
  · refine List.mem_map.mpr ⟨(token, x), List.mem_filter.mpr ⟨?_, by simpa using hle⟩, rfl⟩
    exact TreeMap.mem_toList_iff_getElem?_eq_some.mpr hp

theorem close_pinged (s : Session) (failure : Option Failure) (response : Option ErrorCode) :
    Pinged token (fun _ r => r =
      .error ((failure.or s.drainFailure).getD ⟨.local_, .connectionLost⟩)) s
      (s.close failure response) := by
  by_cases hc : s.closed = true
  · rw [close, if_pos hc]
    exact ⟨[], by simp, .idle rfl rfl⟩
  have hopen : s.closed = false := by simpa using hc
  have hempty : (s.close failure response).pings[token]? = none := by
    rcases close_eq hopen failure response with hc | ⟨_, _, _, _, -, -, -, hc⟩ <;> rw [hc] <;>
      simp [shut, pushed]
  refine ⟨_, close_events hopen failure response, ?_⟩
  have hrest : finished token (s.streams.toList.map (fun e => .streamClosed e.2.handle
      (.failed ((failure.or s.drainFailure).getD ⟨.local_, .connectionLost⟩))) ++
      [.connectionClosed s.handle.id (failure.or s.drainFailure)]) = [] := by
    rw [finished_append, finished_eq_nil]
    · rfl
    · intro e he
      obtain ⟨x, -, rfl⟩ := List.mem_map.mp he
      rfl
  have hfin : finished token (s.closingEvents (failure.or s.drainFailure)) =
      (s.pings[token]?.map fun x => (token, x)).toList.map fun _ =>
        .error ((failure.or s.drainFailure).getD ⟨.local_, .connectionLost⟩) := by
    rw [closingEvents, List.append_assoc, finished_append, hrest, List.append_nil,
      finished_map, FiniteMap.filter_toList_key]
  cases hp : s.pings[token]? with
  | none => exact .idle (by rw [hempty, hp]) (by rw [hfin, hp]; rfl)
  | some x => exact .ended hp hempty (by rw [hfin, hp]; rfl) rfl

/-- The causes of a result, for a ping started and due at `x` and the call `c`. -/
structure Cause (token : Token) (c : Call) (x : Instant × Instant) (result : PingResult) : Prop where
  answered : ∀ elapsed, result = .ok elapsed → ∃ f registry now, c = .receive f registry now ∧
    Answered f token ∧ x.1 ≤ now ∧ now < x.2 ∧ elapsed = now - x.1
  ticked : ∀ now, c = .tick now → x.2 ≤ now
  expired : ∀ f registry now, c = .receive f registry now →
    result = .error ⟨.local_, .deadlineExceeded⟩ → x.2 ≤ now

theorem close_caused (s : Session) {c : Call} (failure : Option Failure)
    (response : Option ErrorCode) (htick : ∀ now, c ≠ .tick now)
    (hreceive : ∀ f registry now, c ≠ .receive f registry now) :
    Pinged token (Cause token c) s (s.close failure response) := by
  refine (close_pinged s failure response).mono fun x r hr => ⟨fun _ h => ?_,
    fun now h => absurd h (htick now), fun f registry now h => absurd h (hreceive f registry now)⟩
  rw [hr] at h
  cases h

theorem receive_pinged (hs : s.Sound) {f : VerifiedFrame} (registry : Registry) {now : Instant}
    (hnow : ∀ (token : Token) (x : Instant × Instant), s.pings[token]? = some x → x.1 ≤ now) :
    Pinged token (Cause token (.receive f registry now)) s (s.receive f registry now).2 := by
  have hd := s.receive_dispatched f registry now
  generalize s.receive f registry now = out at hd ⊢
  have hsound : (s.tick now).Sound :=
    (Party.run_local (p := Party.start s 0) hs (c := .tick now) rfl).1
  have htick : Pinged token (Cause token (.receive f registry now)) s (s.tick now) :=
    (tick_pinged s now).mono fun x r h => ⟨fun elapsed hr => (by rw [h.2] at hr; cases hr), nofun,
      fun _ _ _ hc _ => (by cases hc; exact h.1)⟩
  have hfail : ∀ (s : Session) {failure : Failure} (response : Option ErrorCode),
      failure ≠ ⟨.local_, .deadlineExceeded⟩ →
      Pinged token (Cause token (.receive f registry now)) s (s.close (some failure) response) := by
    intro s failure response hne
    refine (close_pinged s (some failure) response).mono fun x r hr => ?_
    simp only [Option.some_or, Option.getD_some] at hr
    exact ⟨fun _ h => (by rw [hr] at h; cases h), nofun,
      fun _ _ _ _ h => absurd (Except.error.inj (hr.symm.trans h)) hne⟩
  have hparts : ∀ {result : Except SessionError Unit} {s' : Session}, s.closed = false →
      (s.tick now).receiveParts f.wire.header.frameType f.wire.header.streamId f.wire.payload
        registry = (result, s') →
      Pinged token (Cause token (.receive f registry now)) (s.tick now) s' := by
    intro result s' live hp
    have hparted := receiveParts_parted (s := s.tick now) live f.wire.header.frameType
      f.wire.header.streamId f.wire.payload registry
    rw [hp] at hparted
    cases hparted with
    | worked works => exact .worked works hsound
    | data => exact .apart rfl (.one rfl rfl)
    | @answered t started deadline now' pong named waiting clock order =>
      obtain rfl : now = now' := Option.some.inj clock
      refine ⟨_, rfl, ?_⟩
      by_cases ht : t = token
      · subst ht
        have honce : finished t [.pingFinished (s.tick now).handle.id t (.ok (now - started))] =
            [.ok (now - started)] := by simp [finished]
        refine .ended waiting (by simp) honce ⟨fun elapsed hr => ?_, nofun, nofun⟩
        exact ⟨f, registry, now, rfl, ⟨pong, named⟩, order, tick_pending waiting,
          (Except.ok.inj hr).symm⟩
      · refine .idle ?_ (by simp [finished, ht])
        rw [TreeMap.getElem?_erase, if_neg (by simpa using ht)]
    | @stale t started deadline pong named waiting order =>
      exact absurd (hnow t _ (tick_pings s now t _ waiting)) (not_le.mpr (order now rfl))
    | fatal code => exact hfail _ none (by cases code <;> decide)
  cases hd with
  | late => exact ⟨[], by simp, .idle rfl rfl⟩
  | crowded => exact htick.trans (hfail _ none (by decide))
  | failed live room cause parts =>
    refine htick.trans ((hparts live parts).trans (hfail _ _ ?_))
    rcases cause with ⟨rfl, -⟩ | ⟨rfl, -⟩ <;> decide
  | served live room parts => exact htick.trans (hparts live parts)

end Session

/-- One accepted ping and the results reported for it, with the calls that did. -/
structure Probe where
  started : Instant
  timeout : Duration
  answers : List (Call × PingResult)

structure Watch where
  party : Party
  probes : Token → List Probe

namespace Watch

def start (s : Session) (clock : Instant) : Watch := ⟨.start s clock, fun _ => []⟩

def credit (c : Call) : List Probe → PingResult → List Probe
  | [], _ => []
  | p :: earlier, result => { p with answers := p.answers ++ [(c, result)] } :: earlier

def accepted (s : Session) (token : Token) : Call → List Probe
  | .ping t timeout now =>
    if t = token ∧ (s.ping t timeout now).1.isOk then [⟨now, timeout, []⟩] else []
  | _ => []

def run (w : Watch) (c : Call) : Watch where
  party := w.party.run c
  probes token :=
    (finished token ((w.party.run c).log.drop w.party.log.length)).foldl (credit c)
      (accepted w.party.session token c ++ w.probes token)

def Step (w w' : Watch) : Prop :=
  ∃ c, w.party.Enabled c ∧ w.party.Timely c ∧ w' = w.run c

def Settled (token : Token) (p : Probe) : Prop :=
  ∃ c result, p.answers = [(c, result)] ∧
    Session.Cause token c (p.started, p.started + p.timeout) result

def Accounted (token : Token) (outstanding : Option (Instant × Instant)) : List Probe → Prop
  | [] => outstanding = none
  | p :: earlier => (∀ q ∈ earlier, Settled token q) ∧
    match outstanding with
    | some x => p.answers = [] ∧ x = (p.started, p.started + p.timeout)
    | none => Settled token p

end Watch

namespace Party

variable {p : Party} {token : Token}

inductive Probed (p : Party) (token : Token) (c : Call) : Prop
  | step (none : Watch.accepted p.session token c = [])
      (step : Session.PingStep token (Session.Cause token c) p.session (p.run c).session
        ((p.run c).log.drop p.log.length))
  | accepted {now : Instant} {timeout : Duration} (before : p.session.pings[token]? = none)
      (after : (p.run c).session.pings[token]? = some (now, now + timeout))
      (new : Watch.accepted p.session token c = [⟨now, timeout, []⟩])
      (quiet : finished token ((p.run c).log.drop p.log.length) = [])

theorem run_drop (p : Party) (c : Call) : (p.run c).log.drop p.log.length =
    (p.run c).session.events.drop p.session.events.length := by
  rw [run_log, List.drop_left]

theorem ping_probed (p : Party) (t : Token) (timeout : Duration) (now : Instant) :
    p.Probed token (.ping t timeout now) := by
  have hlog := p.run_drop (.ping t timeout now)
  have ha := p.session.ping_answer t timeout now
  have hrun : (p.run (.ping t timeout now)).session = (p.session.ping t timeout now).2 := rfl
  generalize hout : p.session.ping t timeout now = out at ha hrun
  cases ha with
  | refused =>
    refine .step (by simp [Watch.accepted, hout, Except.isOk, Except.toBool])
      (.idle (by rw [hrun]) ?_)
    rw [hlog, hrun, List.drop_length]
    rfl
  | served a done =>
    cases done with
    | ping live fresh few fits =>
      have hquiet : finished token ((p.run (.ping t timeout now)).log.drop p.log.length) = [] := by
        rw [hlog, hrun]
        simp [Session.pushed, finished]
      by_cases hd : t = token
      · subst hd
        have hnew : Watch.accepted p.session t (.ping t timeout now) = [⟨now, timeout, []⟩] := by
          simp [Watch.accepted, hout, Except.isOk, Except.toBool]
        refine .accepted fresh ?_ hnew hquiet
        rw [hrun]
        simp
      · refine .step (by simp [Watch.accepted, hd]) (.idle ?_ hquiet)
        simp only [hrun]
        rw [TreeMap.getElem?_insert, if_neg (by simpa using hd)]

theorem run_probed (hs : p.session.Sound) (hp : p.Punctual) {c : Call} (ht : p.Timely c) :
    p.Probed token c := by
  by_cases hping : ∃ t timeout now, c = .ping t timeout now
  · obtain ⟨t, timeout, now, rfl⟩ := hping
    exact p.ping_probed t timeout now
  have hnone : Watch.accepted p.session token c = [] := by
    cases c with
    | ping t timeout now => exact absurd ⟨t, timeout, now, rfl⟩ hping
    | _ => rfl
  refine .step hnone ?_
  have hstep : ∀ {s' : Session}, Session.Pinged token (Session.Cause token c) p.session s' →
      Session.PingStep token (Session.Cause token c) p.session s'
        (s'.events.drop p.session.events.length) := by
    rintro s' ⟨more, he, h⟩
    rwa [he, List.drop_left]
  have hturn := run_turn hs.ids c
  rw [run_drop]
  generalize (p.run c).session = s' at hturn ⊢
  cases hturn with
  | worked works => exact hstep (.worked works hs)
  | @overfull _ stream reason =>
    have hterm := Session.terminate_works p.session (.cancelled .local_ reason)
      (I := (· = stream.wireId)) rfl
    exact hstep (.trans (.worked hterm hs)
      (Session.close_caused _ _ none (by rintro _ ⟨⟩) (by rintro _ _ _ ⟨⟩)))
  | pinged => exact absurd ⟨_, _, _, rfl⟩ hping
  | ticked now =>
    refine hstep ((Session.tick_pinged _ now).mono fun x r h =>
      ⟨fun _ hr => ?_, fun _ hc => ?_, by rintro _ _ _ ⟨⟩⟩)
    · rw [h.2] at hr
      cases hr
    · cases hc
      exact h.1
  | read reads less => exact .idle rfl (by rw [List.drop_eq_nil_of_le less.length_le]; rfl)
  | taken | lent => exact .idle rfl (by rw [List.drop_length]; rfl)
  | sent kind id =>
    exact hstep (.plain (Session.sent_keeps _ kind id).pings (Session.sent_emits hs kind id))
  | received f registry now =>
    exact hstep (Session.receive_pinged hs registry fun t x hx => (hp t x hx).trans (ht now rfl))
  | closed failure response =>
    exact hstep (Session.close_caused _ failure response (by rintro _ ⟨⟩) (by rintro _ _ _ ⟨⟩))

end Party

namespace Watch

variable {w w' : Watch} {token : Token}

theorem Accounted.run (hs : w.party.session.Sound) (hp : w.party.Punctual) {c : Call}
    (ht : w.party.Timely c)
    (ha : Accounted token w.party.session.pings[token]? (w.probes token)) :
    Accounted token (w.run c).party.session.pings[token]? ((w.run c).probes token) := by
  have hprobed : w.party.Probed token c := Party.run_probed hs hp ht
  simp only [Watch.run]
  cases hprobed with
  | step none step =>
    rw [none, List.nil_append]
    cases step with
    | idle pings quiet =>
      rw [quiet, pings]
      exact ha
    | @ended x result before after once cause =>
      rw [once, after]
      cases hl : w.probes token with
      | nil =>
        rw [hl, before] at ha
        cases ha
      | cons q earlier =>
        rw [hl, before] at ha
        obtain ⟨hearlier, hanswers, rfl⟩ := ha
        exact ⟨hearlier, c, result, by simp [hanswers], cause⟩
  | accepted before after new quiet =>
    rw [new, quiet, after]
    refine ⟨?_, rfl, rfl⟩
    -- the ping before it, if any, was not outstanding
    rw [before] at ha
    cases hl : w.probes token with
    | nil => nofun
    | cons q earlier =>
      rw [hl] at ha
      intro r hr
      rcases List.mem_cons.mp hr with rfl | hr
      · exact ha.2
      · exact ha.1 r hr

theorem steps_accounted {role : ConnectionRole} {s : Session} {clock : Instant}
    (hs : s.Fresh role) (hw : ReflTransGen Step (start s clock) w) :
    w.party.session.Sound ∧ w.party.Punctual ∧
      ∀ token, Accounted token w.party.session.pings[token]? (w.probes token) := by
  induction hw with
  | refl =>
    refine ⟨hs.sound.1, ?_, ?_⟩ <;> obtain ⟨handle, mine, peers, resources, rfl⟩ := hs
    · intro token x hx
      simp [start, Party.start, Session.setResources, Session.withHandle] at hx
    · intro token
      show _ = none
      simp [start, Party.start, Session.setResources, Session.withHandle]
  | tail _ hstep ih =>
    obtain ⟨c, -, ht, rfl⟩ := hstep
    exact ⟨(Party.run_free ih.1 c).1, ih.2.1.run ih.1 ht,
      fun token => (ih.2.2 token).run ih.1 ih.2.1 ht⟩

end Watch

theorem Session.receive_stray {s : Session} {f : VerifiedFrame} {token : Token}
    (ha : Session.Answered f token) (hopen : s.closed = false) (registry : Registry)
    (now : Instant) (hroom : (s.tick now).events.length < (s.tick now).eventLimit)
    (hnone : (s.tick now).pings[token]? = none) :
    s.receive f registry now = (.ok (), s.tick now) := by
  obtain ⟨hkind, htoken⟩ := ha
  have hid : f.wire.header.streamId = 0 := by
    have hv := f.wire.header.streamId_valid
    rw [hkind] at hv
    simpa [FrameType.validStreamId] using hv
  have hparts : (s.tick now).receiveParts f.wire.header.frameType f.wire.header.streamId
      f.wire.payload registry = (.ok (), s.tick now) := by
    simp [receiveParts, receivePing, hkind, hid, htoken, hnone]
  rw [receive, if_neg (by simp [hopen])]
  simp only
  rw [if_neg (not_le.mpr hroom), hparts]

namespace Watch

variable {w : Watch}

theorem Accounted.settled {token : Token} {outstanding : Option (Instant × Instant)}
    {probes : List Probe} (ha : Accounted token outstanding probes) {p : Probe} (hp : p ∈ probes)
    {answer : Call × PingResult} (hm : answer ∈ p.answers) :
    Session.Cause token answer.1 (p.started, p.started + p.timeout) answer.2 := by
  have hone : Settled token p := by
    cases probes with
    | nil => cases hp
    | cons q earlier =>
      rcases List.mem_cons.mp hp with rfl | hp
      · cases outstanding with
        | none => exact ha.2
        | some x =>
          rw [ha.2.1] at hm
          cases hm
      · exact ha.1 p hp
  obtain ⟨c, result, hanswers, hcause⟩ := hone
  rw [hanswers, List.mem_singleton] at hm
  exact hm ▸ hcause

/-- Every ping that was accepted and is not outstanding was reported exactly once. It
succeeded only by a PONG in time, with the time that had passed, and a timer ended it only
when it was due. Other PONGs change pings and events no more than the timer does; where unread
events fill the queue they close the session, as any frame does. -/
theorem ping_accounting {role : ConnectionRole} {s : Session} {clock : Instant}
    (hs : s.Fresh role) (hw : ReflTransGen Step (start s clock) w) :
    (∀ token, Accounted token w.party.session.pings[token]? (w.probes token)) ∧
    (∀ token, ∀ p ∈ w.probes token, ∀ c elapsed, (c, .ok elapsed) ∈ p.answers →
      ∃ f registry now, c = .receive f registry now ∧ Session.Answered f token ∧
        p.started ≤ now ∧ now < p.started + p.timeout ∧ elapsed = now - p.started ∧
        elapsed < p.timeout) ∧
    (∀ token, ∀ p ∈ w.probes token, ∀ now result, (.tick now, result) ∈ p.answers →
      p.started + p.timeout ≤ now) ∧
    (∀ token f registry now, Session.Answered f token →
      (w.party.session.tick now).pings[token]? = none →
      (w.party.session.tick now).events.length < w.party.session.eventLimit →
      (w.party.session.receive f registry now).2.pings = (w.party.session.tick now).pings ∧
      (w.party.session.receive f registry now).2.events =
        (w.party.session.tick now).events) ∧
    (∀ f registry now, w.party.session.closed = false →
      w.party.session.eventLimit ≤ (w.party.session.tick now).events.length →
      w.party.session.receive f registry now = (.error .capacity,
        (w.party.session.tick now).close (some ⟨.local_, .resourceLimit⟩) none)) := by
  obtain ⟨hsound, -, hacc⟩ := steps_accounted hs hw
  refine ⟨hacc, fun token p hp c elapsed hm => ?_, fun token p hp now result hm => ?_,
    fun token f registry now ha hnone hroom => ?_, fun f registry now hopen hfull => ?_⟩
  · obtain ⟨f, registry, now, hc, ha, hle, hlt, he⟩ := ((hacc token).settled hp hm).answered elapsed rfl
    refine ⟨f, registry, now, hc, ha, hle, hlt, he, ?_⟩
    rw [he]
    exact Nat.sub_lt_left_of_lt_add hle hlt
  · exact ((hacc token).settled hp hm).ticked now rfl
  · by_cases hc : w.party.session.closed = true
    · have hempty := hsound.closed_pings hc
      simp [Session.receive, hc, Session.tick, hempty]
    · rw [Session.receive_stray ha (by simpa using hc) registry now hroom hnone]
      exact ⟨rfl, rfl⟩
  · exact Session.receive_crowded hopen hfull

def sample : Watch :=
  ((((start Party.idle.session 0).run (.ping sampleToken 2 0)).run (.tick 3)).run
    (.ping sampleToken 5 3)).run (.receive samplePong .pair 4)

theorem sample_reached : ReflTransGen Step (start Party.idle.session 0) sample := by
  refine .tail (.tail (.tail (.single ⟨.ping sampleToken 2 0, trivial, ?_, rfl⟩)
    ⟨.tick 3, trivial, ?_, rfl⟩) ⟨.ping sampleToken 5 3, trivial, ?_, rfl⟩)
    ⟨.receive samplePong .pair 4, trivial, ?_, rfl⟩
  all_goals
    intro now h
    cases h
    decide

theorem ping_accounting_sample :
    (sample.probes sampleToken).map (fun p => (p.started, p.timeout, p.answers.map Prod.snd)) =
      [(3, 5, [.ok 1]), (0, 2, [.error ⟨.local_, .deadlineExceeded⟩])] ∧
    Accounted sampleToken sample.party.session.pings[sampleToken]? (sample.probes sampleToken) := by
  have hfresh : Party.idle.session.Fresh .acceptor := ⟨_, _, _, _, rfl⟩
  exact ⟨by decide +kernel, (ping_accounting hfresh sample_reached).1 sampleToken⟩

theorem hear_reached {w : Watch} (hw : w.party.clock = 0) (kind : FrameType) (id : UInt32)
    (payload : List UInt8) : ∃ w', ReflTransGen Step w w' ∧
      w'.party = w.party.hear kind id payload ∧ w'.party.clock = 0 := by
  unfold Party.hear
  split
  case h_1 => exact ⟨w, .refl, rfl, hw⟩
  case h_2 f _ =>
    refine ⟨(w.run (.receive ⟨f⟩ .pair 0)).run (.popStreamEvent ⟨1⟩), .tail (.single
      ⟨.receive ⟨f⟩ .pair 0, trivial, fun now h => ?_, rfl⟩)
      ⟨.popStreamEvent ⟨1⟩, trivial, nofun, rfl⟩, rfl, rfl⟩
    cases h
    exact hw.le

theorem flooded_reached (n : Nat) : ∃ w, ReflTransGen Step (start Party.idle.session 0) w ∧
    w.party = Party.flooded n ∧ w.party.clock = 0 := by
  induction n with
  | zero =>
    obtain ⟨w₁, h₁, hp₁, hc₁⟩ := hear_reached (w := start Party.idle.session 0) rfl .open_ 1
      (((Open.new "chat" 1).toOption.map Open.encode).getD [])
    obtain ⟨w₂, h₂, hp₂, hc₂⟩ := hear_reached hc₁ .open_ 3
      (((Open.new "file" 1).toOption.map Open.encode).getD [])
    exact ⟨w₂, h₁.trans h₂, by rw [hp₂, hp₁]; rfl, hc₂⟩
  | succ n ih =>
    obtain ⟨w, h, hp, hc⟩ := ih
    obtain ⟨w', h', hp', hc'⟩ := hear_reached hc .data 1 [0]
    exact ⟨w', h.trans h', by rw [hp', hp]; rfl, hc'⟩

/-- With a full queue of unread events any frame closes the session, also a PONG of a
token that was never used. -/
theorem unknown_pong_closes_full_session : ∃ w, ReflTransGen Step (start Party.idle.session 0) w ∧
    Session.Answered samplePong sampleToken ∧
    w.party.session.pings[sampleToken]? = none ∧
    (w.run (.receive samplePong .pair 0)).party.session.events ≠ w.party.session.events := by
  obtain ⟨w, hw, hp, hc⟩ := flooded_reached 136
  obtain ⟨hopen, hpings, -, -, -, hlen, hlimit, -⟩ := Party.busy_session
  have hs := Party.flooded_session (n := 136) le_rfl
  rw [← hp] at hs
  have hevents : w.party.session.events.length = 138 := by
    rw [hs, List.length_append, List.length_replicate, hlen]
  have hfull : (w.party.session.tick 0).eventLimit ≤ (w.party.session.tick 0).events.length := by
    have hl : (w.party.session.tick 0).eventLimit = 138 := by
      rw [hs]
      exact hlimit
    rw [hl, Session.tick, List.length_append, hevents]
    exact Nat.le_add_right ..
  refine ⟨w, hw, ⟨rfl, by decide⟩, ?_, ?_⟩
  · have hnone : Party.busy.session.pings[sampleToken]? = none := by
      cases hx : Party.busy.session.pings[sampleToken]? with
      | none => rfl
      | some x =>
        have hm := TreeMap.mem_toList_iff_getElem?_eq_some.mpr hx
        rw [hpings] at hm
        cases hm
    rw [hs]
    exact hnone
  · have hrun : (w.run (.receive samplePong .pair 0)).party.session =
        (w.party.session.receive samplePong .pair 0).2 := rfl
    have hlive : w.party.session.closed = false := by
      rw [hs]
      exact hopen
    rw [hrun, Session.receive_crowded hlive hfull, Session.close_events (by exact hlive)]
    intro he
    have hl := congrArg List.length he
    simp only [Session.tick, Session.closingEvents, List.length_append,
      List.length_singleton] at hl
    omega

end Watch

end TalkSphere
