import TalkSphere.ConnectionVoice
import TalkSphere.Driver
import TalkSphere.Roster

/-! The life of a handle in a driver. Every call is a sequence of steps of the roster, in
which the events on record are those that were delivered and then those that wait in the
queue of the driver. -/

namespace TalkSphere

open Relation (ReflTransGen)

section

variable {σ γ : Type} [Cryptography γ]

def Connection.line (c : Connection σ γ) : Line := ⟨c.handle.id, c.pending, c.ceased⟩

theorem Connection.withSession_snd {α : Type} (c : Connection σ γ) (f : Session → α × Session) :
    (c.withSession f).2 = c.onSession fun s => (f s).2 := by
  rcases Option.eq_none_or_eq_some c.session with hs | ⟨s, hs⟩ <;>
    simp [Connection.onSession, Connection.withSession, hs]

theorem Roster.Step.voice {capacity : Nat} {log : List Event} {attempts : List ConnectionId}
    {next : Nat} {c c' : Connection σ γ} (before after : List Line) (hn : c.Named)
    (h : Connection.Voice c c') :
    Step capacity ⟨log, attempts, before ++ c.line :: after, next⟩
      ⟨log, attempts, before ++ c'.line :: after, next⟩ := by
  obtain ⟨events, hq, hown, hends⟩ := h.heard hn
  have hline : c'.line = ⟨c.line.id, c.line.queue ++ events, c'.ceased⟩ := by
    rw [Connection.line, h.handle, hq]
    rfl
  rw [hline]
  exact .spoke before after hown hends

theorem Roster.read_steps (capacity : Nat) (log : List Event) (attempts : List ConnectionId)
    (lines : List Line) (next : Nat) (c : Connection σ γ) :
    ReflTransGen (Step capacity) ⟨log, attempts, c.line :: lines, next⟩
      ⟨log ++ c.popEvent.1.toList, attempts, lines ++ [c.popEvent.2.line], next⟩ := by
  obtain ⟨hev, hq, hh, ho, -⟩ := c.popEvent_pending
  have hback : c.popEvent.2.line = ⟨c.handle.id, c.pending.tail, c.ceased⟩ := by
    rw [Connection.line, hh, hq, ho]
  have hturn : ∀ log line, Step capacity ⟨log, attempts, line :: lines, next⟩
      ⟨log, attempts, lines ++ [line], next⟩ :=
    fun _ line => .reorder (List.perm_append_singleton line lines).symm
  rw [hev, hback, Connection.line]
  cases c.pending with
  | nil =>
    rw [List.head?_nil, Option.toList_none, List.append_nil]
    exact .single (hturn log _)
  | cons e queue =>
    have hheard : Step capacity ⟨log, attempts, ⟨c.handle.id, e :: queue, c.ceased⟩ :: lines, next⟩
        ⟨log ++ [e], attempts, ⟨c.handle.id, queue, c.ceased⟩ :: lines, next⟩ :=
      .heard [] lines c.handle.id e queue c.ceased
    exact .tail (.single hheard) (hturn (log ++ [e]) _)

theorem Roster.left_step (capacity : Nat) (log : List Event) (attempts : List ConnectionId)
    (lines : List Line) (next : Nat) {c : Connection σ γ} (hs : c.Sound) (gone : c.socket = none)
    (silent : c.popEvent.1 = none) :
    Step capacity ⟨log, attempts, c.line :: lines, next⟩ ⟨log, attempts, lines, next⟩ := by
  have hq : c.pending = [] := List.head?_eq_none_iff.mp (c.popEvent_pending.1.symm.trans silent)
  have hline : c.line = ⟨c.handle.id, [], true⟩ := by
    rw [Connection.line, hq, hs.ceased (.inr gone)]
  rw [hline]
  exact .left [] lines c.handle.id

end

namespace Driver

section

variable {π τ ι γ : Type} [SocketProvider π] [Cryptography γ] {d d' d'' : Driver π τ ι γ}

def capacity (d : Driver π τ ι γ) : Nat := d.config.limits.connections

def roster (d : Driver π τ ι γ) (delivered : List Event) : Roster :=
  ⟨delivered ++ d.events, d.pending.map (·.handle.id), d.connections.map Connection.line,
    d.allocated⟩

def Good (d : Driver π τ ι γ) : Prop := ∀ c ∈ d.connections, c.Sound ∧ c.Named

structure Serves (d d' : Driver π τ ι γ) : Prop where
  config : d'.config = d.config
  good : d.Good → d'.Good
  steps : d.Good → ∀ delivered,
    ReflTransGen (Roster.Step d.capacity) (d.roster delivered) (d'.roster delivered)

theorem Serves.trans (h : Serves d d') (h' : Serves d' d'') : Serves d d'' := by
  refine ⟨h'.config.trans h.config, fun hg => h'.good (h.good hg), fun hg delivered => ?_⟩
  have hs := h'.steps (h.good hg) delivered
  rw [capacity, h.config] at hs
  exact (h.steps hg delivered).trans hs

theorem Serves.same (config : d'.config = d.config) (connections : d'.connections = d.connections)
    (pending : d'.pending = d.pending) (events : d'.events = d.events)
    (allocated : d'.allocated = d.allocated) : Serves d d' := by
  refine ⟨config, fun hg => ?_, fun _ delivered => ?_⟩
  · rwa [Good, connections]
  · rw [roster, roster, connections, pending, events, allocated]

theorem Serves.refl (d : Driver π τ ι γ) : Serves d d := .same rfl rfl rfl rfl rfl

theorem Serves.listeners (d : Driver π τ ι γ)
    (listeners : List (ListenerHandle × SocketProvider.Listener π)) :
    Serves d { d with listeners } :=
  .same rfl rfl rfl rfl rfl

theorem Serves.push (d : Driver π τ ι γ) {e : Event} (other : e.connection? = none) :
    Serves d (d.push e) := by
  refine ⟨rfl, id, fun _ delivered => .single ?_⟩
  simp only [roster, Driver.push, ← List.append_assoc]
  exact .note other

theorem Serves.replace {before after : List (Connection (SocketProvider.Socket π) γ)}
    {c c' : Connection (SocketProvider.Socket π) γ} {resources : Resources}
    (hd : d.connections = before ++ c :: after) (hs : c.Sound → c'.Sound)
    (hv : c.Sound → Connection.Voice c c') :
    Serves d { d with resources, connections := before ++ c' :: after } := by
  have hmem : c ∈ d.connections := by simp [hd]
  refine ⟨rfl, fun hg e he => ?_, fun hg delivered => .single ?_⟩
  · rcases List.mem_append.mp he with he | he
    · exact hg e (by simp [hd, he])
    · rcases List.mem_cons.mp he with rfl | he
      · exact ⟨hs (hg c hmem).1, (hv (hg c hmem).1).named (hg c hmem).2⟩
      · exact hg e (by simp [hd, he])
  · simp only [roster, hd, List.map_append, List.map_cons]
    exact .voice _ _ (hg c hmem).2 (hv (hg c hmem).1)

theorem Good.concat (hg : d.Good) {c : Connection (SocketProvider.Socket π) γ} (hc : c.Sound ∧ c.Named) :
    ∀ e ∈ d.connections ++ [c], e.Sound ∧ e.Named := by
  simpa [or_imp, forall_and] using ⟨⟨fun e he => (hg e he).1, hc.1⟩, fun e he => (hg e he).2, hc.2⟩

structure Hands (d : Driver π τ ι γ) (event : Option Event) (d' : Driver π τ ι γ) : Prop where
  config : d'.config = d.config
  good : d.Good → d'.Good
  steps : d.Good → ∀ delivered, ReflTransGen (Roster.Step d.capacity) (d.roster delivered)
    (d'.roster (delivered ++ event.toList))

theorem Serves.hands (h : Serves d d') : Hands d none d' :=
  ⟨h.config, h.good, fun hg delivered => by
    simpa only [Option.toList_none, List.append_nil] using h.steps hg delivered⟩

theorem Hands.serves (h : Hands d none d') : Serves d d' :=
  ⟨h.config, h.good, fun hg delivered => by
    simpa only [Option.toList_none, List.append_nil] using h.steps hg delivered⟩

theorem Serves.then (h : Serves d d') {event : Option Event} (h' : Hands d' event d'') :
    Hands d event d'' := by
  refine ⟨h'.config.trans h.config, fun hg => h'.good (h.good hg), fun hg delivered => ?_⟩
  have hs := h'.steps (h.good hg) delivered
  rw [capacity, h.config] at hs
  exact (h.steps hg delivered).trans hs

theorem Hands.then {event : Option Event} (h : Hands d event d') (h' : Serves d' d'') :
    Hands d event d'' := by
  refine ⟨h'.config.trans h.config, fun hg => h'.good (h.good hg), fun hg delivered => ?_⟩
  have hs := h'.steps (h.good hg) (delivered ++ event.toList)
  rw [capacity, h.config] at hs
  exact (h.steps hg delivered).trans hs

theorem popEvent_hands (d : Driver π τ ι γ) : Hands d d.popEvent.1 d.popEvent.2 := by
  refine ⟨rfl, id, fun _ delivered => ?_⟩
  have hlog : delivered ++ d.events = delivered ++ d.popEvent.1.toList ++ d.popEvent.2.events := by
    cases h : d.events <;> simp [popEvent, h]
  rw [roster, hlog]
  exact .refl

theorem popEvent_none (h : d.popEvent = (none, d')) : Serves d d' ∧ d'.events = [] := by
  have hh := d.popEvent_hands
  rw [h] at hh
  refine ⟨hh.serves, ?_⟩
  obtain ⟨hnone, rfl⟩ := Prod.mk.inj h
  rw [List.head?_eq_none_iff.mp hnone, List.tail_nil]

theorem popEvent_some {e : Event} (h : d.popEvent = (some e, d')) : Hands d (some e) d' := by
  have hh := d.popEvent_hands
  rwa [h] at hh

theorem register_serves (d : Driver π τ ι γ) (protocol : Protocol) :
    Serves d (d.register protocol).2 := by
  unfold register
  split
  case isTrue => exact .refl d
  case isFalse =>
    split
    case h_1 => exact .refl d
    case h_2 => exact ⟨rfl, id, fun _ _ => .single (.issue 1)⟩

theorem listen_serves (d : Driver π τ ι γ) (endpoint : SocketAddr) :
    Serves d (d.listen endpoint).2 := by
  unfold listen
  split
  case isTrue => exact .refl d
  case isFalse =>
    simp only
    split
    case h_1 => exact .same rfl rfl rfl rfl rfl
    case h_2 =>
      split
      case h_1 => exact .same rfl rfl rfl rfl rfl
      case h_2 => exact ⟨rfl, id, fun _ _ => .single (.issue 1)⟩

theorem stopListening_serves (d : Driver π τ ι γ) (listener : ListenerHandle) :
    Serves d (d.stopListening listener).2 := by
  unfold stopListening
  split
  case h_1 => exact .refl d
  case h_2 => exact (Serves.push d rfl).trans (.listeners _ _)

theorem onSession_serves {α : Type} (d : Driver π τ ι γ)
    (p : Connection (SocketProvider.Socket π) γ → Bool)
    {call : Session → Except SessionError α × Session} (accepted : α → Accepted) (k : Call)
    (hcall : ∀ s, (call s).2 = s.perform k) (hk : k.isStream = true) (hq : ¬ k.isRead = true) :
    Serves d (d.onSession p call accepted).2 := by
  unfold onSession
  simp only
  split
  case h_1 => exact .refl d
  case h_2 answer resources connections hu =>
    obtain ⟨before, c, after, hd, -, -, rfl⟩ := updateFirst_some hu
    have hset : Connection.Voice c { c with resources := d.resources } := .same rfl rfl rfl rfl
    have hreq : (Connection.withSession { c with resources := d.resources } call).2 =
        Connection.request { c with resources := d.resources } k := by
      rw [Connection.withSession_snd, Connection.request]
      simp only [hcall]
    simp only [hreq]
    exact .replace hd
      (fun hs => Connection.Sound.request (hs.record d.resources c.handle c.events c.traffic) hk)
      fun hs => hset.trans (.request (hs.record d.resources c.handle c.events c.traffic) hq)

theorem close_serves (d : Driver π τ ι γ) (connection : ConnectionHandle) :
    Serves d (d.close connection).2 := by
  unfold close
  split
  case h_1 entry pending hr =>
    obtain ⟨before, after, hd, rfl, he⟩ := removeFirst_some hr
    obtain rfl : entry.handle = connection := by simpa using he
    refine ⟨rfl, id, fun _ delivered => .single ?_⟩
    simp only [roster, push, hd, List.map_append, List.map_cons, ← List.append_assoc]
    exact .refused entry.handle.id _
  case h_2 =>
    simp only
    split
    case h_1 => exact .refl d
    case h_2 resources connections hu =>
      obtain ⟨before, c, after, hd, -, -, rfl⟩ := updateFirst_some hu
      have hset : Connection.Voice c { c with resources := d.resources } := .same rfl rfl rfl rfl
      exact .replace hd
        (fun hs => Connection.Sound.close (hs.record d.resources c.handle c.events c.traffic))
        fun _ => hset.trans (.close _)

section

variable [Identity ι]

theorem begin_cases (d : Driver π τ ι γ) (socket : SocketProvider.Socket π) (options : Options)
    (now : Instant) : ∃ out resources dependencies, d.begin socket options now =
        (out, { d with resources, dependencies, allocated := d.allocated + 1 }) ∧
      ∀ c, out = .ok c → c.Sound ∧ c.session = none ∧ c.handle = ⟨⟨d.allocated⟩⟩ ∧
        c.pending = [] ∧ c.ceased = false := by
  refine ⟨_, _, _, rfl, fun c hc => ?_⟩
  have hb : Connection.beginShared socket options d.config now d.dependencies.identity
      d.dependencies.cryptography d.resources ⟨⟨d.allocated⟩⟩ = (.ok c, _, _) := Prod.ext hc rfl
  obtain ⟨hn, hh, hq, ho⟩ := Connection.begin_silent hb
  exact ⟨.begin hb, hn, hh, hq, ho⟩

theorem pollConnect_serves (d : Driver π τ ι γ) (now : Instant)
    (p : Pending (SocketProvider.Connecting π)) (rest : List (Pending (SocketProvider.Connecting π))) :
    Serves { d with pending := d.pending ++ p :: rest }
      { d.pollConnect now p with pending := (d.pollConnect now p).pending ++ rest } := by
  simp only [pollConnect]
  generalize (if p.deadline ≤ now then _ else SocketProvider.pollConnected p.attempt :
    Poll (Except ErrorKind (SocketProvider.Socket π)) × SocketProvider.Connecting π) = polled
  obtain ⟨out, attempt⟩ := polled
  have hrefuse : ∀ (failure : Option Failure) (resources : Resources)
      (dependencies : Dependencies π τ ι γ) (count : Nat), Serves { d with pending := d.pending ++ p :: rest }
        { d with
          pending := d.pending ++ rest, resources, dependencies, allocated := d.allocated + count
          events := d.events ++ [.connectionClosed p.handle.id failure] } := by
    intro failure resources dependencies count
    refine ⟨rfl, id, fun _ delivered => .tail (.single (.issue count)) ?_⟩
    simp only [roster, List.map_append, List.map_cons, ← List.append_assoc]
    exact .refused p.handle.id failure
  cases out with
  | pending =>
    simp only [List.append_assoc, List.singleton_append]
    refine ⟨rfl, id, fun _ delivered => ?_⟩
    simp only [roster, List.map_append, List.map_cons]
    exact .refl
  | ready result =>
    cases result with
    | error kind => exact hrefuse _ _ _ 0
    | ok socket =>
      simp only
      generalize hd₁ : ({ d with resources := d.resources.releaseConnection (some p.reservation) } :
        Driver π τ ι γ) = d₁
      obtain ⟨out, resources, dependencies, hb, hok⟩ :=
        d₁.begin_cases socket ⟨.initiator, p.expected⟩ now
      simp only [hb]
      subst hd₁
      cases out with
      | ok c =>
        obtain ⟨hs, hn, -, hq, ho⟩ := hok c rfl
        have hset : (c.setHandle p.handle).Sound ∧ (c.setHandle p.handle).Named :=
          ⟨hs.record c.resources p.handle c.events c.traffic, .of_early hn⟩
        have hline : (c.setHandle p.handle).line = ⟨p.handle.id, c.pending, c.ceased⟩ := rfl
        rw [hq, ho] at hline
        refine ⟨rfl, fun hg => Good.concat hg hset, fun hg delivered => .tail (.single (.issue 1)) ?_⟩
        simp only [roster, List.map_append, List.map_cons, List.map_nil, hline]
        exact .connected p.handle.id
      | error e => exact hrefuse _ _ _ 1

theorem pollConnects_serves (d : Driver π τ ι γ) (now : Instant) : Serves d (d.pollConnects now) := by
  have hall : ∀ (rest : List (Pending (SocketProvider.Connecting π))) (d : Driver π τ ι γ),
      Serves { d with pending := d.pending ++ rest } (rest.foldl (fun d p => d.pollConnect now p) d) := by
    intro rest
    induction rest with
    | nil => exact fun d => .same rfl rfl (by simp) rfl rfl
    | cons p rest ih => exact fun d => (pollConnect_serves d now p rest).trans (ih _)
  exact hall d.pending { d with pending := [] }

theorem incoming_serves (d : Driver π τ ι γ) (hroom : d.full = false)
    (socket : SocketProvider.Socket π) (now : Instant) : Serves d (d.incoming socket now) := by
  obtain ⟨out, resources, dependencies, hb, hok⟩ := d.begin_cases socket ⟨.acceptor, .unpinned⟩ now
  simp only [incoming, hb]
  cases out with
  | ok c =>
    obtain ⟨hs, hn, hh, hq, ho⟩ := hok c rfl
    have hline : c.line = ⟨⟨d.allocated⟩, [], false⟩ := by
      rw [Connection.line, hh, hq, ho]
    refine ⟨rfl, fun hg => Good.concat hg ⟨hs, .of_early hn⟩, fun hg delivered => .single ?_⟩
    simp only [roster, push, List.map_append, List.map_cons, List.map_nil, hline, hh,
      ← List.append_assoc]
    refine .incoming (g := d.roster delivered) ?_
    simp only [full, ge_iff_le, decide_eq_false_iff_not, not_le] at hroom
    simp only [roster, List.length_map, capacity]
    omega
  | error e =>
    refine ⟨rfl, id, fun hg delivered => .tail (.single (.issue 1)) ?_⟩
    simp only [roster, push, ← List.append_assoc]
    exact .turnedAway (some e.failure)

theorem pollListeners_serves (d : Driver π τ ι γ) (now : Instant) : Serves d (d.pollListeners now) := by
  have hall : ∀ (rest : List (ListenerHandle × SocketProvider.Listener π)) (d : Driver π τ ι γ),
      Serves d (pollListenersFrom now rest d) := by
    intro rest
    induction rest with
    | nil => exact .refl
    | cons entry rest ih =>
      intro d
      obtain ⟨handle, listener⟩ := entry
      rw [pollListenersFrom]
      split
      case isTrue => exact .listeners d _
      case isFalse hroom =>
        split
        case h_1 listener' _ => exact (Serves.listeners d _).trans (ih _)
        case h_2 => exact (Serves.push d rfl).trans (ih _)
        case h_3 socket listener' _ =>
          have hfull : d.full = false := by
            simp only [not_or] at hroom
            simpa using hroom.2
          exact ((d.incoming_serves hfull socket now).trans (.listeners _ _)).trans (ih _)
  exact (Serves.listeners d []).trans (hall d.listeners _)

/-- A poll of one connection and the event read from it. The record grows by that event
while the driver has none of its own. -/
theorem serveOne_steps {c : Connection (SocketProvider.Socket π) γ}
    {rest : List (Connection (SocketProvider.Socket π) γ)} (hd : d.connections = c :: rest)
    (hempty : d.events = []) (hg : d.Good) (now : Instant) (delivered : List Event) :
    (d.serveOne now c rest).2.Good ∧
      ReflTransGen (Roster.Step d.capacity) (d.roster delivered)
        ((d.serveOne now c rest).2.roster (delivered ++ (d.serveOne now c rest).1.toList)) := by
  obtain ⟨hs, hn⟩ := hg c (by simp [hd])
  have hrest : ∀ e ∈ rest, e.Sound ∧ e.Named := fun e he => hg e (by simp [hd, he])
  simp only [serveOne]
  generalize hc₀ : ({ c with resources := d.resources } : Connection (SocketProvider.Socket π) γ) = c₀
  have hs₀ : c₀.Sound := hc₀ ▸ hs.record d.resources c.handle c.events c.traffic
  have hv₀ : Connection.Voice c c₀ := hc₀ ▸ .same rfl rfl rfl rfl
  have hm := Connection.poll_moves c₀ now d.registry d.dependencies.identity
    d.dependencies.cryptography
  have hready := c₀.poll_ready now d.registry d.dependencies.identity d.dependencies.cryptography
  generalize c₀.poll now d.registry d.dependencies.identity d.dependencies.cryptography = out
    at hm hready ⊢
  obtain ⟨answer, c₁, identity, crypto⟩ := out
  have hs₁ : c₁.Sound := hs₀.moves hm
  have hv₁ : Connection.Voice c c₁ := hv₀.trans (hm.voice hs₀)
  have hstart : d.roster delivered = ⟨delivered, d.pending.map (·.handle.id),
      c.line :: rest.map Connection.line, d.allocated⟩ := by
    simp only [roster, hempty, hd, List.append_nil, List.map_cons]
  have hspoke : Roster.Step d.capacity (d.roster delivered) ⟨delivered,
      d.pending.map (·.handle.id), c₁.line :: rest.map Connection.line, d.allocated⟩ :=
    hstart ▸ .voice [] _ hn hv₁
  simp only
  split
  case isTrue =>
    refine ⟨fun e he => ?_, .trans (.single hspoke) ?_⟩
    · rcases List.mem_append.mp he with he | he
      · exact hrest e he
      · obtain rfl := List.mem_singleton.mp he
        exact ⟨hs₁.popEvent, c₁.popEvent_pending.2.2.2.2 (hv₁.named hn)⟩
    · have hread := Roster.read_steps d.capacity delivered
        (d.pending.map (·.handle.id)) (rest.map Connection.line) d.allocated c₁
      simpa only [roster, hempty, List.append_nil, List.map_append, List.map_cons, List.map_nil]
        using hread
  case isFalse hdone =>
    obtain ⟨hanswer, hnone⟩ : answer ≠ .pending ∧ c₁.popEvent.1 = none := by
      simpa only [not_or, Option.isSome_iff_ne_none, ne_eq, not_not] using hdone
    have hgone : c₁.socket = none := by
      refine hready ?_
      cases answer with
      | pending => exact absurd rfl hanswer
      | ready => rfl
    refine ⟨hrest, .tail (.single hspoke) ?_⟩
    have hleft := Roster.left_step d.capacity delivered
      (d.pending.map (·.handle.id)) (rest.map Connection.line) d.allocated hs₁ hgone hnone
    simpa only [roster, hempty, hnone, Option.toList_none, List.append_nil] using hleft

theorem serve_hands (now : Instant) (n : Nat) (hempty : d.events = []) :
    Hands d (serve now n d).1 (serve now n d).2 := by
  induction n generalizing d with
  | zero => exact (Serves.refl d).hands
  | succ n ih =>
    rw [serve]
    split
    case h_1 => exact (Serves.refl d).hands
    case h_2 c rest hd =>
      have hone : Hands d (d.serveOne now c rest).1 (d.serveOne now c rest).2 :=
        ⟨rfl, fun hg => (serveOne_steps hd hempty hg now []).1,
          fun hg delivered => (serveOne_steps hd hempty hg now delivered).2⟩
      have hevents : (d.serveOne now c rest).2.events = [] := hempty
      generalize d.serveOne now c rest = out at hone hevents ⊢
      obtain ⟨event, d₁⟩ := out
      cases event with
      | some e => exact hone
      | none => exact hone.serves.then (ih hevents)

end

variable [Clock τ]

theorem armTimer_serves (d : Driver π τ ι γ) : Serves d d.armTimer := by
  unfold armTimer
  split
  · exact .refl d
  · exact .same rfl rfl rfl rfl rfl

theorem connect_serves (d : Driver π τ ι γ) (request : ConnectRequest) :
    Serves d (d.connect request).2 := by
  unfold connect
  split
  case isTrue => exact .refl d
  case isFalse hfull =>
  split
  case h_1 => exact .refl d
  case h_2 =>
  split
  case h_1 => exact .same rfl rfl rfl rfl rfl
  case h_2 =>
  split
  case h_1 => exact .same rfl rfl rfl rfl rfl
  case h_2 =>
    refine ⟨rfl, id, fun _ delivered => .single ?_⟩
    simp only [roster, List.map_append, List.map_cons, List.map_nil]
    refine .attempt (g := d.roster delivered) ?_
    simp only [full, ge_iff_le, decide_eq_true_eq, not_le] at hfull
    simp only [roster, List.length_map, capacity]
    omega

end

end Driver

def Poll.event : Poll (Option Event) → Option Event
  | .ready event => event
  | .pending => none

namespace Driver

variable {π τ ι γ : Type} [SocketProvider π] [Cryptography γ] [Identity ι] [Clock τ]

theorem pollEvent_hands (d : Driver π τ ι γ) : Hands d d.pollEvent.1.event d.pollEvent.2 := by
  simp only [pollEvent]
  split
  case h_1 e d₁ hp => exact popEvent_some hp
  case h_2 d₁ hp =>
    have hnow := (popEvent_none hp).1
    generalize Clock.now d₁.dependencies.clock = now
    have hgranted := hnow.trans
      ((d₁.pollConnects_serves now).trans ((d₁.pollConnects now).pollListeners_serves now))
    generalize (d₁.pollConnects now).pollListeners now = d₂ at hgranted ⊢
    split
    case h_1 e d₃ hp₂ => exact (hgranted.then (popEvent_some hp₂)).then d₃.armTimer_serves
    case h_2 d₃ hp₂ =>
      obtain ⟨hidle, hempty⟩ := popEvent_none hp₂
      have hround := serve_hands now d₃.connections.length hempty
      generalize serve now d₃.connections.length d₃ = round at hround ⊢
      obtain ⟨event, d₄⟩ := round
      have hrest := (hgranted.trans hidle).then hround
      cases event with
      | some e => exact hrest.then d₄.armTimer_serves
      | none =>
        have harmed := hrest.serves.trans d₄.armTimer_serves
        simp only
        split
        case h_1 e d₅ hp₃ => exact harmed.then (popEvent_some hp₃)
        case h_2 d₅ hp₃ => exact (harmed.trans (popEvent_none hp₃).1).hands

theorem accept_serves (d : Driver π τ ι γ) (socket : SocketProvider.Socket π)
    (expectedPeer : ExpectedPeer) : Serves d (d.accept socket expectedPeer).2 := by
  unfold accept
  split
  case isTrue => exact .refl d
  case isFalse hfull =>
    obtain ⟨out, resources, dependencies, hb, hok⟩ :=
      d.begin_cases socket ⟨.acceptor, expectedPeer⟩ (Clock.now d.dependencies.clock)
    simp only [hb]
    cases out with
    | error e => exact ⟨rfl, id, fun _ _ => .single (.issue 1)⟩
    | ok c =>
      obtain ⟨hs, hn, hh, hq, ho⟩ := hok c rfl
      have hline : c.line = ⟨⟨d.allocated⟩, [], false⟩ := by
        rw [Connection.line, hh, hq, ho]
      refine ⟨rfl, fun hg => Good.concat hg ⟨hs, .of_early hn⟩, fun hg delivered => .single ?_⟩
      simp only [roster, List.map_append, List.map_cons, List.map_nil, hline]
      refine .accepted (g := d.roster delivered) ?_
      simp only [full, ge_iff_le, decide_eq_true_eq, not_le] at hfull
      simp only [roster, List.length_map, capacity]
      omega

theorem request_serves (d : Driver π τ ι γ) (request : Request (SocketProvider.Socket π)) :
    Serves d (d.request request).2 := by
  cases request with
  | registerProtocol protocol => exact d.register_serves protocol
  | connect request => exact d.connect_serves request
  | accept socket expectedPeer => exact d.accept_serves socket expectedPeer
  | listen endpoint => exact d.listen_serves endpoint
  | stopListening listener => exact d.stopListening_serves listener
  | openStream connection owner =>
    exact d.onSession_serves _ _ (.open_ d.registry owner) (fun _ => rfl) rfl (by rintro ⟨⟩)
  | stream owner stream action =>
    cases action with
    | data bytes =>
      exact d.onSession_serves _ _ (.send owner stream bytes) (fun _ => rfl) rfl (by rintro ⟨⟩)
    | end_ => exact d.onSession_serves _ _ (.end_ owner stream) (fun _ => rfl) rfl (by rintro ⟨⟩)
    | cancel reason =>
      exact d.onSession_serves _ _ (.cancel owner stream reason) (fun _ => rfl) rfl (by rintro ⟨⟩)
  | ping connection token timeout =>
    exact d.onSession_serves _ _ (.ping token timeout _) (fun _ => rfl) rfl (by rintro ⟨⟩)
  | drain connection reason =>
    exact d.onSession_serves _ _ (.drain reason) (fun _ => rfl) rfl (by rintro ⟨⟩)
  | close connection => exact d.close_serves connection

theorem submit_serves (d : Driver π τ ι γ) (request : Request (SocketProvider.Socket π)) :
    Serves d (d.submit request).2 := by
  unfold submit
  split
  · exact .refl d
  · exact d.request_serves request

/-- What may change between two calls: sockets, attempts and listeners go on by themselves,
and capabilities have state of their own. -/
structure Change (π τ ι γ : Type) [SocketProvider π] where
  socket : ConnectionHandle → SocketProvider.Socket π → SocketProvider.Socket π
  attempt : ConnectionHandle → SocketProvider.Connecting π → SocketProvider.Connecting π
  listener : ListenerHandle → SocketProvider.Listener π → SocketProvider.Listener π
  dependencies : Dependencies π τ ι γ

def change (d : Driver π τ ι γ) (w : Change π τ ι γ) : Driver π τ ι γ :=
  { d with
    connections := d.connections.map fun c => { c with socket := c.socket.map (w.socket c.handle) }
    pending := d.pending.map fun p => { p with attempt := w.attempt p.handle p.attempt }
    listeners := d.listeners.map fun l => (l.1, w.listener l.1 l.2)
    dependencies := w.dependencies }

omit [Identity ι] [Clock τ] in
theorem change_serves (d : Driver π τ ι γ) (w : Change π τ ι γ) : Serves d (d.change w) := by
  have hmoved : ∀ c : Connection (SocketProvider.Socket π) γ, c.Sound ∧ c.Named →
      Connection.Sound { c with socket := c.socket.map (w.socket c.handle) } ∧
      Connection.Named { c with socket := c.socket.map (w.socket c.handle) } := by
    rintro c ⟨hs, hn⟩
    refine ⟨?_, hn⟩
    rcases Option.eq_none_or_eq_some c.socket with hc | ⟨socket, hc⟩
    · rw [hc, Option.map_none, ← hc]
      exact hs
    · have hw := hs.world (w.socket c.handle socket) c.resources
      rw [hc] at hw ⊢
      exact hw
  refine ⟨rfl, fun hg e he => ?_, fun _ delivered => ?_⟩
  · obtain ⟨c, hc, rfl⟩ := List.mem_map.mp he
    exact hmoved c (hg c hc)
  · have hline : ∀ c : Connection (SocketProvider.Socket π) γ,
        Connection.line { c with socket := c.socket.map (w.socket c.handle) } = c.line := by
      intro c
      simp only [Connection.line, Connection.pending, Connection.ceased, Option.isNone_map]
    have hsame : (d.change w).roster delivered = d.roster delivered := by
      simp only [roster, change, List.map_map]
      congr 1
      · exact List.map_congr_left fun c _ => hline c
    rw [hsame]

end Driver

structure Service (π τ ι γ : Type) [SocketProvider π] [Cryptography γ] where
  driver : Driver π τ ι γ
  delivered : List Event := []

namespace Service

section

variable {π τ ι γ : Type} [SocketProvider π] [Cryptography γ] {s : Service π τ ι γ}

def log (s : Service π τ ι γ) : List Event := s.delivered ++ s.driver.events

def roster (s : Service π τ ι γ) : Roster := s.driver.roster s.delivered

theorem mem_live {id : ConnectionId} : id ∈ s.roster.live.map Line.id ↔
    ∃ c ∈ s.driver.connections, c.handle = ⟨id⟩ := by
  simp only [roster, Driver.roster, List.map_map, List.mem_map, Function.comp_apply,
    Connection.line]
  exact exists_congr fun c => and_congr_right fun _ => ⟨fun h => h ▸ rfl, fun h => h ▸ rfl⟩

theorem mem_attempts {id : ConnectionId} : id ∈ s.roster.attempts ↔
    ∃ p ∈ s.driver.pending, p.handle = ⟨id⟩ := by
  simp only [roster, Driver.roster, List.mem_map]
  exact exists_congr fun p => and_congr_right fun _ => ⟨fun h => h ▸ rfl, fun h => h ▸ rfl⟩

end

variable {π τ ι γ : Type} [SocketProvider π] [Clock τ] [Identity ι] [Cryptography γ]
  {s s' : Service π τ ι γ}

variable (π τ ι γ) in
inductive Op
  | submit (request : Request (SocketProvider.Socket π))
  | poll
  | world (w : Driver.Change π τ ι γ)

def run (s : Service π τ ι γ) : Op π τ ι γ → Service π τ ι γ
  | .submit request => { s with driver := (s.driver.submit request).2 }
  | .poll => ⟨s.driver.pollEvent.2, s.delivered ++ s.driver.pollEvent.1.event.toList⟩
  | .world w => { s with driver := s.driver.change w }

def Step (s s' : Service π τ ι γ) : Prop := ∃ op, s' = s.run op

theorem steps_ops (s : Service π τ ι γ) (ops : List (Op π τ ι γ)) :
    ReflTransGen Step s (ops.foldl run s) := by
  induction ops generalizing s with
  | nil => exact .refl
  | cons op ops ih => exact .head ⟨op, rfl⟩ (ih _)

theorem run_hands (s : Service π τ ι γ) (op : Op π τ ι γ) :
    ∃ event, Driver.Hands s.driver event (s.run op).driver ∧
      (s.run op).delivered = s.delivered ++ event.toList := by
  cases op with
  | submit request =>
    exact ⟨none, (s.driver.submit_serves request).hands, (List.append_nil _).symm⟩
  | poll => exact ⟨_, s.driver.pollEvent_hands, rfl⟩
  | world w => exact ⟨none, (s.driver.change_serves w).hands, (List.append_nil _).symm⟩

theorem steps_roster (h : ReflTransGen Step s s') (hg : s.driver.Good) :
    s'.driver.Good ∧ s'.driver.config = s.driver.config ∧
      ReflTransGen (Roster.Step s.driver.capacity) s.roster s'.roster := by
  induction h with
  | refl => exact ⟨hg, rfl, .refl⟩
  | @tail s₁ _ _ h ih =>
    obtain ⟨hg₁, hcfg, hsteps⟩ := ih
    obtain ⟨op, rfl⟩ := h
    obtain ⟨event, hh, hdel⟩ := s₁.run_hands op
    have hmore := hh.steps hg₁ s₁.delivered
    rw [Driver.capacity, hcfg] at hmore
    rw [← hdel] at hmore
    exact ⟨hh.good hg₁, hh.config.trans hcfg, hsteps.trans hmore⟩

theorem reached_valid {config : TransportConfig} {dependencies : Dependencies π τ ι γ}
    (h : ReflTransGen Step ⟨Driver.new config dependencies, []⟩ s) :
    s.driver.Good ∧ s.driver.config = config ∧ s.roster.Valid config.limits.connections := by
  obtain ⟨hg, hcfg, hsteps⟩ := steps_roster h fun c hc => absurd hc List.not_mem_nil
  exact ⟨hg, hcfg, (Roster.Valid.empty _).steps hsteps⟩

/-- In every run of requests and polls, whatever sockets, attempts, listeners, clock and
cryptography do: the tables keep within their limit; a closure is the last event of its
connection and an announcement the first; and an attempt or a connection leaves its table
only when it is a connection of the same handle or its closure is on record. -/
theorem handle_lifecycle (config : TransportConfig) (dependencies : Dependencies π τ ι γ)
    (h : ReflTransGen Step ⟨Driver.new config dependencies, []⟩ s) :
    s.driver.pending.length + s.driver.connections.length ≤ config.limits.connections ∧
    (∀ id failure before after, s.log = before ++ .connectionClosed id failure :: after →
      ∀ e ∈ after, e.connection? ≠ some id) ∧
    (∀ handle before after, s.log = before ++ .incomingConnection handle :: after →
      ∀ e ∈ before, e.connection? ≠ some handle.id) ∧
    ∀ s', ReflTransGen Step s s' →
      (∀ p ∈ s.driver.pending, (∃ p' ∈ s'.driver.pending, p'.handle = p.handle) ∨
        (∃ c ∈ s'.driver.connections, c.handle = p.handle) ∨
        ∃ failure, .connectionClosed p.handle.id failure ∈ s'.log) ∧
      ∀ c ∈ s.driver.connections, (∃ c' ∈ s'.driver.connections, c'.handle = c.handle) ∨
        ∃ failure, .connectionClosed c.handle.id failure ∈ s'.log := by
  obtain ⟨hg, hcfg, hv⟩ := reached_valid h
  refine ⟨?_, fun id failure before after hl => about_eq_nil.mp (hv.closure_last hl),
    fun handle before after hl => about_eq_nil.mp (hv.announcement_first hl), fun s' h' => ?_⟩
  · have hroom := hv.room
    simp only [roster, Driver.roster, List.length_map] at hroom
    exact hroom
  · obtain ⟨-, -, hsteps⟩ := steps_roster h' hg
    rw [Driver.capacity, hcfg] at hsteps
    refine ⟨fun p hp => ?_, fun c hc => ?_⟩
    · rcases Roster.steps_attempts hv hsteps (mem_attempts.mpr ⟨p, hp, rfl⟩) with ha | hl | hc
      · exact .inl (mem_attempts.mp ha)
      · exact .inr (.inl (mem_live.mp hl))
      · exact .inr (.inr hc)
    · rcases Roster.steps_live hv hsteps (mem_live.mpr ⟨c, hc, rfl⟩) with hl | hc
      · exact .inl (mem_live.mp hl)
      · exact .inr hc

end Service

/-- Sockets for concrete runs: an attempt succeeds once it has its socket, and a listener
yields what has arrived. -/
structure MockSockets where

instance : SocketProvider MockSockets where
  Socket := Script
  io := inferInstance
  Connecting := Option Script
  Listener := List Script
  connect p _ := (.ok none, p)
  listen p _ := (.ok [], p)
  pollConnected a := match a with
    | none => (.pending, none)
    | some socket => (.ready (.ok socket), none)
  localAddr _ := .ok ⟨[127, 0, 0, 1], 1⟩
  pollAccept l := match l with
    | [] => (.pending, [])
    | socket :: rest => (.ready (.ok socket), rest)
  close _ := .ok ()

instance : Clock Nat where
  now t := t
  pollDeadline t deadline := (if deadline ≤ t then .ready () else .pending, t)

namespace Service

def sampleDependencies (now : Nat) : Dependencies MockSockets Nat MockIdentity MockCrypto :=
  ⟨{}, now, ⟨.replicate 32 1⟩, { entropy := .replicate 32 1 }⟩

def sampleConfig : TransportConfig := ⟨⟨2, 2, maxFrameBytes, maxPayloadBytes⟩, 10⟩

def sampleWorld (now : Nat) (arrived : List Script) : Op MockSockets Nat MockIdentity MockCrypto :=
  .world ⟨fun _ socket => socket, fun _ _ => some {}, fun _ _ => arrived, sampleDependencies now⟩

/-- An attempt that gets its socket and a listener that accepts another; the first is then
closed by its owner and the second by its deadline. -/
def sampleOps : List (Op MockSockets Nat MockIdentity MockCrypto) :=
  [.submit (.connect ⟨⟨[127, 0, 0, 1], 1⟩, .unpinned, by decide⟩),
    .submit (.listen ⟨[127, 0, 0, 1], 0⟩), sampleWorld 0 [{}], .poll, .submit (.close ⟨⟨0⟩⟩),
    sampleWorld 10 [], .poll, .poll, .poll]

theorem handle_lifecycle_sample :
    let s := sampleOps.foldl run ⟨.new sampleConfig (sampleDependencies 0), []⟩
    s.delivered = [.incomingConnection ⟨⟨3⟩⟩,
      .connectionClosed ⟨0⟩ (some ⟨.local_, .connectionLost⟩),
      .connectionClosed ⟨3⟩ (some ⟨.local_, .deadlineExceeded⟩)] ∧
    s.driver.connections.length = 0 ∧
    ∀ id failure before after, s.log = before ++ .connectionClosed id failure :: after →
      ∀ e ∈ after, e.connection? ≠ some id :=
  ⟨by decide +kernel, by decide +kernel, (handle_lifecycle _ _ (steps_ops _ sampleOps)).2.1⟩

end Service

end TalkSphere
