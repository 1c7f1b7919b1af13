import TalkSphere.Server

/-! Runs of a server. Each is a run of its driver, so that what holds of the events of a
driver holds of what the server delivers, reports and routes; and a shutdown ends it. -/

namespace TalkSphere.Server

open Relation (ReflTransGen)

variable {π τ ι γ κ : Type} [SocketProvider π] [Clock τ] [Identity ι] [Cryptography γ]

def Asked : Driver π τ ι γ → Driver π τ ι γ → Prop :=
  ReflTransGen fun d d' => ∃ request, d' = (d.submit request).2

theorem Asked.one (d : Driver π τ ι γ) (request : Request (SocketProvider.Socket π)) :
    Asked d (d.submit request).2 := .single ⟨request, rfl⟩

theorem Asked.steps {d d' : Driver π τ ι γ} (h : Asked d d') (delivered : List Event) :
    ReflTransGen Service.Step ⟨d, delivered⟩ ⟨d', delivered⟩ := by
  induction h with
  | refl => exact .refl
  | tail _ hd ih =>
    obtain ⟨request, rfl⟩ := hd
    exact ih.tail ⟨.submit request, rfl⟩

theorem Asked.foldl {f : Driver π τ ι γ → ConnectionHandle → Driver π τ ι γ}
    (h : ∀ d x, Asked d (f d x)) (connections : List ConnectionHandle) (d : Driver π τ ι γ) :
    Asked d (connections.foldl f d) := by
  induction connections generalizing d with
  | nil => exact .refl
  | cons x rest ih => exact (h d x).trans (ih _)

def Closed (events : List Event) (h : ConnectionHandle) : Prop :=
  ∃ failure, .connectionClosed h.id failure ∈ events

structure Steady (n n' : Node π τ ι γ) : Prop where
  stage : n'.stage = n.stage
  deadline : n'.shutdownDeadline = n.shutdownDeadline
  config : n'.config = n.config

structure Tended (n n' : Node π τ ι γ) : Prop extends Steady n n' where
  asked : Asked n.driver n'.driver

omit [Clock τ] [Identity ι] in
theorem Steady.trans {n n₁ n' : Node π τ ι γ} (h : Steady n n₁) (h' : Steady n₁ n') :
    Steady n n' :=
  ⟨h'.stage.trans h.stage, h'.deadline.trans h.deadline, h'.config.trans h.config⟩

theorem Tended.refl (n : Node π τ ι γ) : Tended n n := ⟨⟨rfl, rfl, rfl⟩, .refl⟩

theorem Tended.trans {n n₁ n' : Node π τ ι γ} (h : Tended n n₁) (h' : Tended n₁ n') :
    Tended n n' :=
  ⟨h.toSteady.trans h'.toSteady, h.asked.trans h'.asked⟩

theorem Tended.driver (n : Node π τ ι γ) {driver : Driver π τ ι γ} (h : Asked n.driver driver) :
    Tended n { n with driver } :=
  ⟨⟨rfl, rfl, rfl⟩, h⟩

theorem Tended.keep (n : Node π τ ι γ) (x : ConnectionHandle) :
    Tended n (n.keep x) ∧ x ∈ (n.keep x).connections ∧ n.connections ⊆ (n.keep x).connections := by
  unfold Node.keep
  split
  case isTrue h => exact ⟨.refl n, h, List.Subset.refl _⟩
  case isFalse =>
    exact ⟨⟨⟨rfl, rfl, rfl⟩, .refl⟩, List.mem_append_right _ List.mem_cons_self,
      List.subset_append_left _ _⟩

theorem observe_spec (n : Node π τ ι γ) (e : Event) :
    Tended n (n.observe e).2 ∧
      (∀ x ∈ n.connections, x ∈ (n.observe e).2.connections ∨ Closed [e] x) ∧
      (n.stage ≠ .stopping → ∀ x, e = .incomingConnection x → x ∈ (n.observe e).2.connections) := by
  cases e with
  | incomingConnection x =>
    simp only [Node.observe]
    split
    case isTrue hs =>
      exact ⟨.driver n (.one _ _), fun x hx => .inl hx, fun hn => absurd hs hn⟩
    case isFalse =>
      obtain ⟨hkeep, hin, hsub⟩ := Tended.keep n x
      refine ⟨hkeep, fun y hy => .inl (hsub hy), ?_⟩
      rintro - y ⟨⟩
      exact hin
  | connectionClosed id failure =>
    refine ⟨⟨⟨rfl, rfl, rfl⟩, .refl⟩, fun x hx => ?_, fun _ x he => by cases he⟩
    by_cases hid : x.id = id
    · exact .inr ⟨failure, hid ▸ List.mem_cons_self⟩
    · exact .inl (List.mem_filter.mpr ⟨hx, by simpa using hid⟩)
  | listenerClosed =>
    simp only [Node.observe]
    split <;> exact ⟨.refl n, fun x hx => .inl hx, fun _ x he => by cases he⟩
  | authenticated | streamOpened | data | remoteEnd | streamClosed | pingFinished =>
    exact ⟨.refl n, fun x hx => .inl hx, fun _ x he => by cases he⟩

theorem submit_spec (n : Node π τ ι γ) (request : Request (SocketProvider.Socket π)) :
    Tended n (n.submit request).2 ∧ n.connections ⊆ (n.submit request).2.connections ∧
      ∀ x, (n.submit request).1 = .ok (.connection x) → x ∈ (n.submit request).2.connections := by
  unfold Node.submit
  split
  case isTrue => exact ⟨.refl n, List.Subset.refl _, fun x hx => by cases hx⟩
  case isFalse =>
    have hask := Asked.one n.driver request
    split
    case h_1 he =>
      rw [he] at hask
      exact ⟨.driver n hask, List.Subset.refl _, fun x hx => by cases hx⟩
    case h_2 handle driver he =>
      rw [he] at hask
      obtain ⟨hkeep, hin, hsub⟩ := Tended.keep { n with driver } handle
      refine ⟨(Tended.driver n hask).trans hkeep, hsub, fun x hx => ?_⟩
      cases hx
      exact hin
    case h_3 hnot he =>
      rw [he] at hask
      refine ⟨.driver n hask, List.Subset.refl _, fun x hx => ?_⟩
      exact absurd (Except.ok.inj hx) (hnot x)

theorem attempt_spec (n : Node π τ ι γ) (contact : Contacts.Contact) :
    Tended n (n.attempt contact).2 ∧ n.connections ⊆ (n.attempt contact).2.connections ∧
      ∀ x, (n.attempt contact).1.admitted = .ok x → x ∈ (n.attempt contact).2.connections := by
  unfold Node.attempt
  split
  case h_1 => exact ⟨.refl n, List.Subset.refl _, fun x hx => by cases hx⟩
  case h_2 =>
    split
    case h_1 => exact ⟨.refl n, List.Subset.refl _, fun x hx => by cases hx⟩
    case h_2 request _ =>
      have hsubmit := submit_spec n (.connect request)
      split
      case h_1 handle n' he =>
        rw [he] at hsubmit
        refine ⟨hsubmit.1, hsubmit.2.1, fun x hx => ?_⟩
        cases hx
        exact hsubmit.2.2 handle rfl
      case h_2 he =>
        rw [he] at hsubmit
        exact ⟨hsubmit.1, hsubmit.2.1, fun x hx => by cases hx⟩

theorem attempts_spec (n : Node π τ ι γ) (contacts : List Contacts.Contact) :
    Tended n (n.attempts contacts).2 ∧ (n.attempts contacts).1.length = contacts.length ∧
      n.connections ⊆ (n.attempts contacts).2.connections ∧
      ∀ a ∈ (n.attempts contacts).1, ∀ x, a.admitted = .ok x →
        x ∈ (n.attempts contacts).2.connections := by
  induction contacts generalizing n with
  | nil => exact ⟨.refl n, rfl, List.Subset.refl _, fun a ha => absurd ha List.not_mem_nil⟩
  | cons contact rest ih =>
    obtain ⟨hfirst, hsub, hin⟩ := attempt_spec n contact
    obtain ⟨hrest, hlength, hsub', hin'⟩ := ih (n.attempt contact).2
    refine ⟨hfirst.trans hrest, congrArg Nat.succ hlength, List.Subset.trans hsub hsub', ?_⟩
    intro a ha x hx
    rcases List.mem_cons.mp ha with rfl | ha
    · exact hsub' (hin x hx)
    · exact hin' a ha x hx

theorem observe_error {n n' : Node π τ ι γ} {e : Event} {failure : Failure}
    (h : n.observe e = (.error failure, n')) : Status.of e = [] := by
  cases e with
  | incomingConnection =>
    simp only [Node.observe] at h
    split at h <;> cases h
  | listenerClosed => rfl
  | connectionClosed | authenticated | streamOpened | data | remoteEnd | streamClosed
  | pingFinished => cases h

theorem route_asked [Consumer κ] (r : Router κ) (d : Driver π τ ι γ) (e : Event) :
    Asked d (r.route d e).2.2 := by
  unfold Router.route
  split
  case h_1 => exact .refl
  case h_2 =>
    split
    case h_1 => exact .refl
    case h_2 => exact .refl
    case h_3 => exact .one d _

section

variable {granted : List ConnectionHandle} {s s₁ s' : Runtime π τ ι γ κ}

def Runtime.early (s : Runtime π τ ι γ κ) : List Event :=
  s.delivered.take (s.mark.getD s.delivered.length)

/-- A connection that was granted, or came in before the shutdown, is kept until it closes. -/
structure Held (granted : List ConnectionHandle) (s : Runtime π τ ι γ κ) : Prop where
  mark : (s.mark = none ∧ s.node.stage = .ready) ∨
    ((∃ k ≤ s.delivered.length, s.mark = some k) ∧ s.node.stage = .stopping)
  taken : ∀ x, x ∈ granted ∨ .incomingConnection x ∈ s.early →
    x ∈ s.node.connections ∨ Closed s.delivered x

omit [Clock τ] [Identity ι] in
theorem Held.more (h : Held granted s) {events : List Event}
    (hd : s'.delivered = s.delivered ++ events) (hm : s'.mark = s.mark)
    (hstage : s'.node.stage = s.node.stage)
    (hkept : ∀ x ∈ s.node.connections, x ∈ s'.node.connections ∨ Closed events x)
    (hnew : s.node.stage ≠ .stopping → ∀ x, .incomingConnection x ∈ events →
      x ∈ s'.node.connections) : Held granted s' := by
  have hold : ∀ x, x ∈ granted ∨ .incomingConnection x ∈ s.early →
      x ∈ s'.node.connections ∨ Closed s'.delivered x := by
    intro x hx
    rcases h.taken x hx with hin | ⟨failure, hc⟩
    · refine (hkept x hin).imp_right fun hc => ?_
      obtain ⟨failure, hc⟩ := hc
      exact ⟨failure, hd ▸ List.mem_append_right _ hc⟩
    · exact .inr ⟨failure, hd ▸ List.mem_append_left _ hc⟩
  rcases h.mark with ⟨hnone, hs⟩ | ⟨⟨k, hk, hsome⟩, hs⟩
  · refine ⟨.inl ⟨hm.trans hnone, hstage.trans hs⟩, fun x hx => ?_⟩
    -- all that was delivered so far is early
    rcases hx with hx | hx
    · exact hold x (.inl hx)
    · simp only [Runtime.early, hm, hnone, Option.getD_none, List.take_length, hd] at hx
      rcases List.mem_append.mp hx with hx | hx
      · refine hold x (.inr ?_)
        simpa only [Runtime.early, hnone, Option.getD_none, List.take_length] using hx
      · exact .inl (hnew (by simp [hs]) x hx)
  · refine ⟨.inr ⟨⟨k, ?_, hm.trans hsome⟩, hstage.trans hs⟩, fun x hx => hold x (hx.imp_right ?_)⟩
    · rw [hd, List.length_append]
      omega
    · simp only [Runtime.early, hm, hsome, Option.getD_some, hd, List.take_append_of_le_length hk]
      exact id

/-- What a part of a run does: its driver goes on, and what it delivers is reported. -/
structure Went (s s' : Runtime π τ ι γ κ) : Prop where
  steps : ReflTransGen Service.Step ⟨s.node.driver, s.delivered⟩ ⟨s'.node.driver, s'.delivered⟩
  heard : ∃ more, s'.delivered = s.delivered ++ more ∧
    s'.reports = s.reports ++ more.flatMap Status.of
  held : ∀ granted, Held granted s → Held granted s'

theorem Went.trans (h : Went s s₁) (h' : Went s₁ s') : Went s s' := by
  obtain ⟨first, hd, hr⟩ := h.heard
  obtain ⟨second, hd', hr'⟩ := h'.heard
  refine ⟨h.steps.trans h'.steps, ⟨first ++ second, ?_, ?_⟩,
    fun granted hg => h'.held granted (h.held granted hg)⟩
  · rw [hd', hd, List.append_assoc]
  · rw [hr', hr, List.flatMap_append, List.append_assoc]

theorem Went.quiet (hd : s'.delivered = s.delivered) (hr : s'.reports = s.reports)
    (steps : ReflTransGen Service.Step ⟨s.node.driver, s.delivered⟩ ⟨s'.node.driver, s.delivered⟩)
    (held : ∀ granted, Held granted s → Held granted s') : Went s s' :=
  ⟨hd ▸ steps, ⟨[], by simpa using hd, by simpa using hr⟩, held⟩

structure Turned (s s' : Runtime π τ ι γ κ) : Prop extends Went s s', Steady s.node s'.node

theorem Turned.trans (h : Turned s s₁) (h' : Turned s₁ s') : Turned s s' :=
  ⟨h.toWent.trans h'.toWent, h.toSteady.trans h'.toSteady⟩

theorem Turned.driver {d : Driver π τ ι γ} (h : ReflTransGen Service.Step
    ⟨s.node.driver, s.delivered⟩ ⟨d, s.delivered⟩) : Turned s (s.setDriver d) := by
  refine ⟨.quiet rfl rfl h fun granted hg => ?_, rfl, rfl, rfl⟩
  refine hg.more (List.append_nil _).symm rfl rfl (fun x hx => .inl hx) ?_
  exact fun _ x hx => absurd hx List.not_mem_nil

theorem Turned.change (s : Runtime π τ ι γ κ) (w : Option (Driver.Change π τ ι γ)) :
    Turned s (s.change w) := by
  cases w with
  | none => exact .driver .refl
  | some w => exact .driver (.single ⟨.world w, rfl⟩)

theorem Turned.idle (h : s.node.driver.pollEvent.1.event = none) : Turned s s.poll.2 := by
  have hsame : s.poll.2 = s.setDriver s.node.driver.pollEvent.2 := by
    simp [Runtime.poll, Runtime.setDriver, h]
  rw [hsame]
  refine .driver (.single ⟨.poll, ?_⟩)
  simp [Service.run, h]

variable [Consumer κ]

theorem Turned.read {e : Event} (hpoll : s.node.driver.pollEvent.1 = .ready (some e)) :
    Turned s (s.poll.2.consume e).2 := by
  have hd : s.poll.2.delivered = s.delivered ++ [e] := by simp [Runtime.poll, hpoll, Poll.event]
  obtain ⟨htended, hkept, hnew⟩ := observe_spec s.poll.2.node e
  have hnode : ∀ (driver : Driver π τ ι γ) (router : Router κ) (reports : List Status),
      Asked (s.poll.2.node.observe e).2.driver driver → reports = s.reports ++ Status.of e →
      Turned s { s.poll.2 with
        node := { (s.poll.2.node.observe e).2 with driver }, router, reports } := by
    intro driver router reports hask hreports
    refine ⟨⟨?_, ⟨[e], hd, by simpa using hreports⟩, fun granted hg => ?_⟩,
      htended.stage, htended.deadline, htended.config⟩
    · exact ReflTransGen.head ⟨.poll, rfl⟩ (Asked.steps (htended.asked.trans hask) _)
    · refine hg.more hd rfl htended.stage hkept fun hs x hx => hnew hs x ?_
      exact (List.mem_singleton.mp hx).symm
  unfold Runtime.consume
  rcases hobserve : s.poll.2.node.observe e with ⟨result, node⟩
  rw [hobserve] at hnode
  cases result with
  | error failure =>
    refine hnode node.driver s.router s.reports .refl ?_
    rw [observe_error hobserve, List.append_nil]
  | ok =>
    have hroute := route_asked s.poll.2.router node.driver e
    simp only
    split
    case h_1 router driver he =>
      rw [he] at hroute
      exact hnode driver router _ hroute rfl
    case h_2 router driver he =>
      rw [he] at hroute
      exact hnode driver router _ hroute rfl

theorem Turned.turnWith (left : Nat) (changes : List (Driver.Change π τ ι γ))
    (s : Runtime π τ ι γ κ) : Turned s (s.turnWith left changes).2 := by
  induction left generalizing changes s with
  | zero => exact .driver .refl
  | succ left ih =>
    rw [Runtime.turnWith]
    have hchange := Turned.change s changes.head?
    generalize s.change changes.head? = s₀ at hchange ⊢
    have hpoll : s₀.poll = (s₀.node.driver.pollEvent.1, s₀.poll.2) := rfl
    rw [hpoll]
    split
    case h_1 hp =>
      obtain ⟨hanswer, rfl⟩ := Prod.mk.inj hp
      exact hchange.trans (.idle (by rw [hanswer]; rfl))
    case h_2 hp =>
      obtain ⟨hanswer, rfl⟩ := Prod.mk.inj hp
      exact hchange.trans (.idle (by rw [hanswer]; rfl))
    case h_3 e s₁ hp =>
      obtain ⟨hanswer, rfl⟩ := Prod.mk.inj hp
      have hread := hchange.trans (Turned.read hanswer)
      generalize s₀.poll.2.consume e = out at hread ⊢
      obtain ⟨result, s₂⟩ := out
      cases result with
      | error failure => exact hread
      | ok =>
        have hrest := hread.trans (ih changes.tail s₂)
        simp only
        generalize s₂.turnWith left changes.tail = out at hrest ⊢
        obtain ⟨result, s₃⟩ := out
        cases result <;> exact hrest

theorem beginShutdown_cases {n : Node π τ ι γ} (hs : n.stage = .ready) (now : Instant) :
    n.beginShutdown now = (.error .runtime, n) ∨ ∃ driver, Asked n.driver driver ∧
      n.beginShutdown now = (.ok (), { n with
        shutdownDeadline := some (now + n.config.options.shutdownTimeout), stage := .stopping
        listener := none, driver }) := by
  unfold Node.beginShutdown
  rw [if_neg (by simp [hs]), if_neg (by simp [hs]), Instant.checkedAdd]
  split
  case h_1 => exact .inl rfl
  case h_2 deadline hd =>
    split_ifs at hd
    obtain rfl := Option.some.inj hd
    refine .inr ⟨_, ?_, rfl⟩
    have hunlisten : Asked n.driver n.unlisten := by
      unfold Node.unlisten
      split
      · exact .refl
      · exact .one _ _
    refine hunlisten.trans (Asked.foldl (fun d x => ?_) n.connections _)
    unfold Node.drainOrClose
    have hdrain := Asked.one d (.drain x .normal)
    split
    · rename_i he
      rw [he] at hdrain
      exact hdrain
    · rename_i he
      rw [he] at hdrain
      exact hdrain.trans (Asked.one _ _)

inductive Stop (s : Runtime π τ ι γ κ) (r : Reading π τ ι γ) :
    Except Failure Unit × Runtime π τ ι γ κ → Prop
  | goes (h : r.stopping = true → s.node.stage ≠ .ready) : Stop s r (.ok (), s)
  | fails (h : s.node.stage = .ready) : Stop s r (.error .runtime, s)
  | stops {driver : Driver π τ ι γ} (h : s.node.stage = .ready)
      (asked : Asked s.node.driver driver) :
      Stop s r (.ok (), { s with
        mark := some s.delivered.length
        node := { s.node with
          shutdownDeadline := some (r.began + s.node.config.options.shutdownTimeout)
          stage := .stopping, listener := none, driver } })

omit [Consumer κ] in
theorem stop_cases (s : Runtime π τ ι γ κ) (r : Reading π τ ι γ) : Stop s r (s.stop r) := by
  unfold Runtime.stop
  split
  case isFalse h => exact .goes fun hr hs => h ⟨hr, hs⟩
  case isTrue h =>
    rcases beginShutdown_cases h.2 r.began with he | ⟨driver, hask, he⟩
    · rw [he]
      exact .fails h.2
    · rw [he]
      exact .stops h.2 hask

omit [Consumer κ] in
theorem Stop.went {r : Reading π τ ι γ} {out : Except Failure Unit × Runtime π τ ι γ κ}
    (h : Stop s r out) : Went s out.2 := by
  cases h with
  | goes | fails => exact (Turned.driver .refl).toWent
  | stops hs asked =>
    refine .quiet rfl rfl (asked.steps _) fun granted hg => ⟨.inr ⟨⟨_, le_rfl, rfl⟩, rfl⟩, ?_⟩
    intro x hx
    rcases hg.mark with ⟨hnone, -⟩ | ⟨-, hstop⟩
    · refine hg.taken x (hx.imp_right fun hx => ?_)
      simpa [Runtime.early, hnone] using hx
    · rw [hs] at hstop
      cases hstop

inductive Progress (s : Runtime π τ ι γ κ) (r : Reading π τ ι γ) :
    Except Failure Bool × Runtime π τ ι γ κ → Prop
  | ready (h : s.node.stage ≠ .stopping) : Progress s r (.ok false, s)
  | done (h : s.node.stage = .stopping) (empty : s.node.connections = []) :
      Progress s r (.ok true, s)
  | waits {deadline : Instant} (h : s.node.stage = .stopping)
      (timed : s.node.shutdownDeadline = some deadline)
      (early : ¬ (r.forcing = true ∨ deadline ≤ r.now)) : Progress s r (.ok false, s)
  | fails {failure : Failure} {driver : Driver π τ ι γ} (asked : Asked s.node.driver driver) :
      Progress s r (.error failure, s.setDriver driver)

omit [Consumer κ] in
theorem progress_cases (s : Runtime π τ ι γ κ) (r : Reading π τ ι γ) :
    Progress s r (s.progress r) := by
  unfold Runtime.progress Node.shutdownProgress
  split
  case isFalse h => exact .ready h
  case isTrue h =>
    split
    case h_1 => exact .fails .refl
    case h_2 deadline hd =>
      split_ifs with hempty hforce
      · exact .done h (by simpa using hempty)
      · exact .fails (Asked.foldl (fun d x => .one d _) _ _)
      · exact .waits h hd hforce

omit [Consumer κ] in
theorem Progress.turned {r : Reading π τ ι γ} {out : Except Failure Bool × Runtime π τ ι γ κ}
    (h : Progress s r out) : Turned s out.2 := by
  cases h with
  | ready | done | waits => exact .driver .refl
  | fails asked => exact .driver (asked.steps _)

theorem proceed_cases (s : Runtime π τ ι γ κ) (r : Reading π τ ι γ) :
    ∃ s₁, Turned s s₁ ∧ ((∃ failure, s.proceed r = (.error failure, s₁)) ∨
      Progress s₁ r (s.proceed r)) := by
  unfold Runtime.proceed
  have hturn := Turned.turnWith eventsPerTurn r.changes s
  generalize s.turnWith eventsPerTurn r.changes = out at hturn ⊢
  obtain ⟨result, s₁⟩ := out
  cases result with
  | error failure => exact ⟨s₁, hturn, .inl ⟨failure, rfl⟩⟩
  | ok count => exact ⟨s₁, hturn, .inr (progress_cases s₁ r)⟩

theorem proceed_turned (s : Runtime π τ ι γ κ) (r : Reading π τ ι γ) :
    Turned s (s.proceed r).2 := by
  obtain ⟨s₁, hturn, ⟨failure, he⟩ | hprogress⟩ := proceed_cases s r
  · rw [he]
    exact hturn
  · exact hturn.trans hprogress.turned

theorem round_went (s : Runtime π τ ι γ κ) (r : Reading π τ ι γ) : Went s (s.round r).2 ∧
    ((s.round r).1 = .ok true → (s.round r).2.node.connections = []) := by
  unfold Runtime.round
  have hstop := (stop_cases s r).went
  generalize s.stop r = out at hstop ⊢
  obtain ⟨result, s₁⟩ := out
  cases result with
  | error failure => exact ⟨hstop, fun he => by cases he⟩
  | ok =>
    refine ⟨hstop.trans (proceed_turned s₁ r).toWent, fun he => ?_⟩
    simp only at he ⊢
    obtain ⟨s₂, -, ⟨failure, hp⟩ | hprogress⟩ := proceed_cases s₁ r
    · rw [hp] at he
      cases he
    · generalize s₁.proceed r = out at he hprogress ⊢
      cases hprogress with
      | done h empty => exact empty
      | ready | waits | fails => cases he

theorem loop_went (readings : List (Reading π τ ι γ)) (s : Runtime π τ ι γ κ) :
    Went s (s.loop readings).2 ∧
      ((s.loop readings).1 = some (.ok ()) → (s.loop readings).2.node.connections = []) := by
  induction readings generalizing s with
  | nil => exact ⟨(Turned.driver .refl).toWent, fun he => by cases he⟩
  | cons r rest ih =>
    obtain ⟨hround, hdone⟩ := round_went s r
    rw [Runtime.loop]
    generalize s.round r = out at hround hdone ⊢
    obtain ⟨result, s₁⟩ := out
    rcases result with failure | done
    · exact ⟨hround, fun he => by cases he⟩
    · cases done with
      | true => exact ⟨hround, fun _ => hdone rfl⟩
      | false => exact ⟨hround.trans (ih s₁).1, (ih s₁).2⟩

theorem proceed_stopping (hs : s.node.stage = .stopping) {deadline : Instant}
    (hd : s.node.shutdownDeadline = some deadline) {r : Reading π τ ι γ}
    (h : s.proceed r = (.ok false, s')) : s'.node.stage = .stopping ∧
      s'.node.shutdownDeadline = some deadline ∧ ¬ (r.forcing = true ∨ deadline ≤ r.now) := by
  obtain ⟨s₁, hturn, ⟨failure, he⟩ | hprogress⟩ := proceed_cases s r
  · rw [he] at h
    cases h
  · rw [h] at hprogress
    have hs₁ := hturn.stage.trans hs
    cases hprogress with
    | ready hnot => exact absurd hs₁ hnot
    | waits _ timed early =>
      obtain rfl := Option.some.inj (timed.symm.trans (hturn.deadline.trans hd))
      exact ⟨hs₁, timed, early⟩

theorem loop_cons_ne_none {r : Reading π τ ι γ} {rest : List (Reading π τ ι γ)}
    (h : ∀ s₁, s.round r = (.ok false, s₁) → (s₁.loop rest).1 ≠ none) :
    (s.loop (r :: rest)).1 ≠ none := by
  rw [Runtime.loop]
  split
  case h_1 => exact fun h => by cases h
  case h_2 => exact fun h => by cases h
  case h_3 s₁ hround => exact h s₁ hround

theorem loop_stopping (hs : s.node.stage = .stopping) {deadline : Instant}
    (hd : s.node.shutdownDeadline = some deadline) {readings : List (Reading π τ ι γ)}
    {r : Reading π τ ι γ} (hr : r ∈ readings) (hlate : r.forcing = true ∨ deadline ≤ r.now) :
    (s.loop readings).1 ≠ none := by
  induction readings generalizing s with
  | nil => exact absurd hr List.not_mem_nil
  | cons first rest ih =>
    have hstop : s.stop first = (.ok (), s) := by rw [Runtime.stop, if_neg (by simp [hs])]
    refine loop_cons_ne_none fun s₁ hround => ?_
    rw [Runtime.round, hstop] at hround
    obtain ⟨hs₁, hd₁, hearly⟩ := proceed_stopping hs hd hround
    rcases List.mem_cons.mp hr with rfl | hr
    · exact absurd hlate hearly
    · exact ih hs₁ hd₁ hr

theorem round_ready (hs : s.node.stage = .ready) {r : Reading π τ ι γ}
    (hround : s.round r = (.ok false, s')) :
    (s'.node.stage = .ready ∧ s'.node.config = s.node.config ∧ r.stopping = false) ∨
      (s'.node.stage = .stopping ∧ s'.node.shutdownDeadline =
        some (r.began + s.node.config.options.shutdownTimeout) ∧
        ¬ (r.forcing = true ∨ r.began + s.node.config.options.shutdownTimeout ≤ r.now)) := by
  unfold Runtime.round at hround
  have hstop := stop_cases s r
  generalize s.stop r = out at hstop hround
  cases hstop with
  | goes hgo =>
    have hturned := proceed_turned s r
    rw [show s.proceed r = (.ok false, s') from hround] at hturned
    exact .inl ⟨hturned.stage.trans hs, hturned.config,
      Bool.eq_false_of_not_eq_true fun hr => hgo hr hs⟩
  | fails => cases hround
  | stops => exact .inr (proceed_stopping rfl rfl hround)

theorem loop_ready (hs : s.node.stage = .ready) (first : List (Reading π τ ι γ))
    {rest : List (Reading π τ ι γ)} {r₀ r : Reading π τ ι γ} (hstop : r₀.stopping = true)
    (hr : r ∈ r₀ :: rest) (hlate : r.forcing = true ∨ ∀ x ∈ first ++ [r₀],
      x.began + s.node.config.options.shutdownTimeout ≤ r.now) :
    (s.loop (first ++ r₀ :: rest)).1 ≠ none := by
  induction first generalizing s with
  | nil =>
    refine loop_cons_ne_none fun s₁ hround => ?_
    rcases round_ready hs hround with ⟨-, -, hgo⟩ | ⟨hs₁, hd₁, hearly⟩
    · rw [hstop] at hgo
      cases hgo
    · have hlate₀ := hlate.imp_right fun h => h r₀ List.mem_cons_self
      rcases List.mem_cons.mp hr with rfl | hr
      · exact absurd hlate₀ hearly
      · exact loop_stopping hs₁ hd₁ hr hlate₀
  | cons x first ih =>
    refine loop_cons_ne_none fun s₁ hround => ?_
    rcases round_ready hs hround with ⟨hs₁, hconfig, -⟩ | ⟨hs₁, hd₁, -⟩
    · refine ih hs₁ (hlate.imp_right fun h y hy => ?_)
      rw [hconfig]
      exact h y (List.mem_cons_of_mem _ hy)
    · exact loop_stopping hs₁ hd₁ (List.mem_append_right _ hr)
        (hlate.imp_right fun h => h x List.mem_cons_self)

/-- A server as its application builds it: the consumers are registered one by one. -/
inductive Composed (config : Config) : Node π τ ι γ → Router κ → Prop
  | composed (sockets : π) (clock : τ) (crypto : γ) (credentials : Credentials ι) :
      Composed config (compose sockets clock crypto config credentials) {}
  | registered {n : Node π τ ι γ} {r r' : Router κ} {protocol : Protocol} {consumer : κ}
      {answer : Except Failure StreamOwner} {driver : Driver π τ ι γ} (h : Composed config n r)
      (hr : r.register n.driver protocol consumer = (answer, r', driver)) :
      Composed config { n with driver } r'

def Router.owners (r : Router κ) : List StreamOwner := r.consumers.map Prod.fst

/-- Before the start: the driver was asked for registrations only, and the consumers have
owners of their own, older than what the driver allocates next. -/
structure Idle (config : Config) (n : Node π τ ι γ) (r : Router κ) : Prop where
  reached : ReflTransGen Service.Step
    ⟨Driver.new config.options.transport n.driver.dependencies, []⟩ ⟨n.driver, []⟩
  config : n.config = config
  untouched : n.stage = .starting ∧ n.listener = none ∧ n.contactsStarted = false ∧
    n.connections = []
  distinct : r.owners.Nodup
  issued : ∀ owner ∈ r.owners, owner.instanceId < n.driver.allocated

omit [Consumer κ] in
theorem register_cases (d : Driver π τ ι γ) (protocol : Protocol) :
    (∃ e, d.submit (.registerProtocol protocol) = (.error e, d)) ∨
    ∃ d', d.submit (.registerProtocol protocol) = (.ok (.registration ⟨d.allocated⟩), d') ∧
      d'.allocated = d.allocated + 1 ∧ d'.dependencies = d.dependencies := by
  simp only [Driver.submit, Driver.request, Driver.register, Registry.register]
  split
  case isTrue => exact .inl ⟨_, rfl⟩
  split
  case isTrue => exact .inl ⟨_, rfl⟩
  split
  case h_1 => exact .inl ⟨_, rfl⟩
  case h_2 owner registry he =>
    split at he
    case h_1 => cases he
    case h_2 =>
      split_ifs at he
      · cases (Prod.mk.inj he).1
      · obtain rfl := Except.ok.inj (Prod.mk.inj he).1
        exact .inr ⟨_, rfl, rfl, rfl⟩

omit [Consumer κ] in
theorem Composed.idle {config : Config} {n : Node π τ ι γ} {r : Router κ}
    (h : Composed config n r) : Idle config n r := by
  induction h with
  | composed sockets clock crypto credentials =>
    exact ⟨.refl, rfl, ⟨rfl, rfl, rfl, rfl⟩, .nil, fun _ ho => absurd ho List.not_mem_nil⟩
  | @registered n r r' protocol consumer answer driver _ hr ih =>
    unfold Router.register at hr
    split at hr
    case isTrue =>
      cases hr
      exact ih
    case isFalse =>
      have hstep := ih.reached.tail ⟨.submit (.registerProtocol protocol), rfl⟩
      rcases register_cases n.driver protocol with ⟨e, he⟩ | ⟨d', he, hd', hsame⟩
      · rw [he] at hr
        cases hr
        exact ih
      · rw [he] at hr
        simp only [Service.run, he] at hstep
        cases hr
        have howners : Router.owners ⟨r.consumers ++ [(⟨n.driver.allocated⟩, consumer)]⟩ =
            r.owners ++ [⟨n.driver.allocated⟩] := by simp [Router.owners]
        refine ⟨hsame ▸ hstep, ih.config, ih.untouched, ?_, fun owner ho => ?_⟩
        · rw [howners]
          refine List.nodup_append.mpr ⟨ih.distinct, List.nodup_singleton _, ?_⟩
          rintro owner ho _ hn rfl
          rw [List.mem_singleton.mp hn] at ho
          exact absurd (ih.issued _ ho) (Nat.lt_irrefl _)
        · rw [howners] at ho
          rcases List.mem_append.mp ho with ho | ho
          · exact hd' ▸ Nat.lt_succ_of_lt (ih.issued owner ho)
          · rw [List.mem_singleton.mp ho, hd']
            exact Nat.lt_succ_self _

def admittedIn (attempts : List Attempt) : List ConnectionHandle :=
  attempts.filterMap fun a => a.admitted.toOption

structure Started (config : Config) (n : Node π τ ι γ) (r : Router κ) (attempts : List Attempt)
    (ready : Ready) (s : Runtime π τ ι γ κ) : Prop where
  stage : s.node.stage = .ready
  config : s.node.config = config
  router : s.router = r
  delivered : s.delivered = []
  reports : s.reports = .ready ready ::
    (attempts.filter fun a => !a.admitted.isOk).map fun _ => .contactFailed
  tried : attempts.length = n.contacts.length
  listen : n.listen.1 = .ok ready
  contacts : n.listen.2.connectContacts.1 = .ok attempts
  asked : Asked n.driver s.node.driver
  held : Held (admittedIn attempts) s

omit [Consumer κ] in
theorem Idle.start {config : Config} {n : Node π τ ι γ} {r : Router κ} (h : Idle config n r) :
    (∃ failure driver, n.listen.1 = .error failure ∧ Asked n.driver driver ∧
      start n r = (.error failure, { node := { n with driver }, router := r })) ∨
    ∃ attempts ready s, start n r = (.ok (), s) ∧ Started config n r attempts ready s := by
  obtain ⟨hstage, hlistener, hfresh, hempty⟩ := h.untouched
  have hlisten : (∃ failure driver, Asked n.driver driver ∧
        n.listen = (.error failure, { n with driver })) ∨
      ∃ ready n₁, n.listen = (.ok ready, n₁) ∧ Asked n.driver n₁.driver ∧ n₁.stage = .ready ∧
        n₁.config = n.config ∧ n₁.contacts = n.contacts ∧ n₁.contactsStarted = false := by
    have hask := Asked.one n.driver (.listen n.config.options.listen)
    unfold Node.listen
    rw [if_neg (by simp [hstage, hlistener])]
    split
    all_goals
      rename_i he
      rw [he] at hask
    · exact .inl ⟨_, _, hask, rfl⟩
    · exact .inr ⟨_, _, rfl, hask, rfl, rfl, rfl, hfresh⟩
    · exact .inl ⟨_, _, hask, rfl⟩
  unfold Server.start
  obtain ⟨failure, driver, hask, he⟩ | ⟨ready, n₁, he, hask, hs, hconfig, hsame, hnew⟩ := hlisten
  · rw [he]
    exact .inl ⟨failure, driver, rfl, hask, rfl⟩
  · right
    obtain ⟨htended, htried, -, hin⟩ :=
      attempts_spec { n₁ with contactsStarted := true } n₁.contacts
    generalize hout :
      ({ n₁ with contactsStarted := true } : Node π τ ι γ).attempts n₁.contacts = out at htended htried hin
    have hcontacts : n₁.connectContacts = (.ok out.1, out.2) := by
      rw [Node.connectContacts, if_neg (by simp [hs, hnew]), hout]
    rw [he]
    simp only [hcontacts]
    refine ⟨out.1, ready, _, rfl, htended.stage.trans hs, ?_, rfl, rfl, rfl, htried.trans ?_, ?_,
      ?_, hask.trans htended.asked, .inl ⟨rfl, htended.stage.trans hs⟩, ?_⟩
    · exact htended.config.trans (hconfig.trans h.config)
    · rw [hsame]
    · rw [he]
    · rw [he, hcontacts]
    rintro x (hx | hx)
    · obtain ⟨a, ha, hx⟩ := List.mem_filterMap.mp hx
      exact .inl (hin a ha x (Outcome.toOption_some.mp hx))
    · exact absurd hx List.not_mem_nil

def Status.last : Option (Except Failure Unit) → List Status
  | some (.ok ()) => [.stopped]
  | _ => []

theorem run_cases {config : Config} {n : Node π τ ι γ} {r : Router κ} (h : Idle config n r)
    (stopping : Bool) (readings : List (Reading π τ ι γ)) :
    (stopping = true ∧ run n r stopping readings =
      (some (.ok ()), { node := n, router := r, reports := [.stopped] })) ∨
    (stopping = false ∧ ∃ failure driver, n.listen.1 = .error failure ∧ Asked n.driver driver ∧
      run n r stopping readings =
        (some (.error failure), { node := { n with driver }, router := r })) ∨
    (stopping = false ∧ ∃ attempts ready s, Started config n r attempts ready s ∧
      run n r stopping readings = ((s.loop readings).1, { (s.loop readings).2 with
        reports := (s.loop readings).2.reports ++ Status.last (s.loop readings).1 })) := by
  unfold run
  cases stopping with
  | true => exact .inl ⟨rfl, rfl⟩
  | false =>
    rw [if_neg (by simp)]
    right
    obtain ⟨failure, driver, hlisten, hask, he⟩ | ⟨attempts, ready, s, he, hs⟩ := h.start
    · rw [he]
      exact .inl ⟨rfl, failure, driver, hlisten, hask, rfl⟩
    · rw [he]
      refine .inr ⟨rfl, attempts, ready, s, hs, ?_⟩
      simp only
      generalize s.loop readings = out
      obtain ⟨answer, s'⟩ := out
      rcases answer with _ | failure | done
      · simp [Status.last]
      · simp [Status.last]
      · rfl

structure Sink where
  seen : List Event := []

instance : Consumer Sink := ⟨fun k e => (.ok (), ⟨k.seen ++ [e]⟩)⟩

def sampleOptions : Options where
  identityStore := "store"
  listen := ⟨[127, 0, 0, 1], 0⟩
  contacts := []
  maximumContacts := 1
  transport := Service.sampleConfig
  shutdownTimeout := 5

def samplePolicy : Config := (Config.new 0 sampleOptions).toOption.get (by decide +kernel)

def sampleNode : Node MockSockets Nat MockIdentity MockCrypto :=
  compose {} 0 { entropy := .replicate 32 1 } samplePolicy
    ⟨⟨.replicate 32 1⟩, ⟨.replicate 32 1⟩, [⟨⟨.replicate 32 2⟩, some (.v4 (.replicate 4 1) 7)⟩]⟩

def sampleChange (now : Nat) (arrived : List Script) :
    Driver.Change MockSockets Nat MockIdentity MockCrypto :=
  ⟨fun _ socket => socket, fun _ _ => some {}, fun _ _ => arrived, Service.sampleDependencies now⟩

def sampleReadings : List (Reading MockSockets Nat MockIdentity MockCrypto) :=
  [⟨false, false, 0, 0, [sampleChange 0 [{}], sampleChange 0 []]⟩,
    ⟨true, false, 1, 2, []⟩]

theorem sample_composed : Composed samplePolicy sampleNode ({} : Router Sink) :=
  .composed _ _ _ _

theorem Started.steps {config : Config} {n : Node π τ ι γ} {r : Router κ}
    {attempts : List Attempt} {ready : Ready} (hs : Started config n r attempts ready s)
    (readings : List (Reading π τ ι γ)) : ReflTransGen Service.Step ⟨n.driver, []⟩
      ⟨(s.loop readings).2.node.driver, (s.loop readings).2.delivered⟩ := by
  have hloop := (loop_went readings s).1.steps
  rw [hs.delivered] at hloop
  exact (hs.asked.steps []).trans hloop

/-- A run of a server is a run of the driver it was composed with. -/
theorem run_refines {config : Config} {n : Node π τ ι γ} {r : Router κ}
    (hcomposed : Composed config n r) (stopping : Bool) (readings : List (Reading π τ ι γ)) :
    ReflTransGen Service.Step
      ⟨Driver.new config.options.transport n.driver.dependencies, []⟩
      ⟨(run n r stopping readings).2.node.driver, (run n r stopping readings).2.delivered⟩ := by
  refine hcomposed.idle.reached.trans ?_
  obtain ⟨-, he⟩ | ⟨-, failure, driver, -, hask, he⟩ | ⟨-, attempts, ready, s, hs, he⟩ :=
    run_cases hcomposed.idle stopping readings
  · rw [he]
  · rw [he]
    exact hask.steps []
  · rw [he]
    exact hs.steps readings

theorem run_refines_sample :
    (run sampleNode ({} : Router Sink) false sampleReadings).2.delivered.length = 4 ∧
    ReflTransGen Service.Step
      ⟨Driver.new samplePolicy.options.transport sampleNode.driver.dependencies, []⟩
      ⟨(run sampleNode ({} : Router Sink) false sampleReadings).2.node.driver,
        (run sampleNode ({} : Router Sink) false sampleReadings).2.delivered⟩ :=
  ⟨by decide +kernel, run_refines sample_composed false sampleReadings⟩

def closure? : Event → Option ConnectionId
  | .connectionClosed id _ => some id
  | _ => none

theorem closures_nodup {events : List Event} (h : ∀ first id failure second,
    events = first ++ .connectionClosed id failure :: second → about id second = []) :
    (events.filterMap closure?).Nodup := by
  induction events with
  | nil => exact List.nodup_nil
  | cons e events ih =>
    have hrest : (events.filterMap closure?).Nodup := by
      refine ih fun first id failure second he => h (e :: first) id failure second ?_
      rw [he, List.cons_append]
    rcases Option.eq_none_or_eq_some (closure? e) with he | ⟨id, he⟩
    · rwa [List.filterMap_cons_none he]
    · rw [List.filterMap_cons_some he, List.nodup_cons]
      refine ⟨fun hin => ?_, hrest⟩
      obtain ⟨e', hmem, he'⟩ := List.mem_filterMap.mp hin
      cases e with
      | connectionClosed first failure =>
        obtain rfl : first = id := Option.some.inj he
        have hlast := about_eq_nil.mp (h [] first failure events rfl)
        cases e' with
        | connectionClosed second failure' =>
          obtain rfl : second = first := Option.some.inj he'
          exact hlast (.connectionClosed second failure') hmem rfl
        | incomingConnection | listenerClosed | authenticated | streamOpened | data | remoteEnd
        | streamClosed | pingFinished => cases he'
      | incomingConnection | listenerClosed | authenticated | streamOpened | data | remoteEnd
      | streamClosed | pingFinished => cases he

theorem closures_of_reached {config : TransportConfig} {dependencies : Dependencies π τ ι γ}
    {service : Service π τ ι γ}
    (h : ReflTransGen Service.Step ⟨Driver.new config dependencies, []⟩ service) :
    (service.delivered.filterMap closure?).Nodup := by
  obtain ⟨-, -, hv⟩ := Service.reached_valid h
  refine closures_nodup fun first id failure second he => ?_
  have hlog : service.roster.log =
      first ++ .connectionClosed id failure :: (second ++ service.driver.events) := by
    rw [← List.cons_append, ← List.append_assoc, ← he]
    rfl
  have hlast := hv.closure_last hlog
  rw [about_append] at hlast
  exact (List.append_eq_nil_iff.mp hlast).1

/-- What a run reports: nothing if the listener could not be bound, and otherwise the
bound address, the contacts that failed at once and what was delivered, with one report
for each connection that closed. `Stopped` comes last, after a run without failure. -/
inductive Account (n : Node π τ ι γ) :
    Bool → Option (Except Failure Unit) → Runtime π τ ι γ κ → Prop
  | requested {s : Runtime π τ ι γ κ} (delivered : s.delivered = [])
      (reports : s.reports = [.stopped]) : Account n true (some (.ok ())) s
  | unbound {s : Runtime π τ ι γ κ} {failure : Failure} (listen : n.listen.1 = .error failure)
      (delivered : s.delivered = []) (reports : s.reports = []) :
      Account n false (some (.error failure)) s
  | served {s : Runtime π τ ι γ κ} {answer : Option (Except Failure Unit)} {ready : Ready}
      {attempts : List Attempt} (listen : n.listen.1 = .ok ready)
      (contacts : n.listen.2.connectContacts.1 = .ok attempts)
      (tried : attempts.length = n.contacts.length)
      (reports : s.reports = .ready ready ::
        ((attempts.filter fun a => !a.admitted.isOk).map fun _ => .contactFailed) ++
        s.delivered.flatMap Status.of ++ Status.last answer)
      (closures : (s.delivered.filterMap closure?).Nodup) : Account n false answer s

theorem run_reports {config : Config} {n : Node π τ ι γ} {r : Router κ}
    (hcomposed : Composed config n r) (stopping : Bool) (readings : List (Reading π τ ι γ)) :
    Account n stopping (run n r stopping readings).1 (run n r stopping readings).2 := by
  obtain ⟨rfl, he⟩ | ⟨rfl, failure, driver, hlisten, -, he⟩ | ⟨rfl, attempts, ready, s, hs, he⟩ :=
    run_cases hcomposed.idle stopping readings
  · rw [he]
    exact .requested rfl rfl
  · rw [he]
    exact .unbound hlisten rfl rfl
  · rw [he]
    obtain ⟨more, hd, hr⟩ := (loop_went readings s).1.heard
    rw [hs.delivered, List.nil_append] at hd
    rw [hs.reports, ← hd] at hr
    refine .served hs.listen hs.contacts hs.tried (congrArg (· ++ Status.last _) hr) ?_
    exact closures_of_reached (hcomposed.idle.reached.trans (hs.steps readings))

theorem run_reports_sample :
    (run sampleNode ({} : Router Sink) false sampleReadings).2.reports.length = 4 ∧
      Account sampleNode false (run sampleNode ({} : Router Sink) false sampleReadings).1
        (run sampleNode ({} : Router Sink) false sampleReadings).2 :=
  ⟨by decide +kernel, run_reports sample_composed false sampleReadings⟩

/-- What a server that stopped without failure has let go: the connections it was admitted
and those it had taken before the shutdown began are known to be closed. -/
structure Released (n : Node π τ ι γ) (s : Runtime π τ ι γ κ) : Prop where
  kept : s.node.connections = []
  contacts : ∀ attempts, n.listen.2.connectContacts.1 = .ok attempts →
    ∀ a ∈ attempts, ∀ x, a.admitted = .ok x → Closed s.delivered x
  early : ∀ x, .incomingConnection x ∈ s.early → Closed s.delivered x

theorem run_released {config : Config} {n : Node π τ ι γ} {r : Router κ}
    {readings : List (Reading π τ ι γ)} (hcomposed : Composed config n r)
    (hrun : run n r false readings = (some (.ok ()), s)) : Released n s := by
  obtain ⟨hstop, -⟩ | ⟨-, failure, driver, -, -, he⟩ | ⟨-, attempts, ready, s₀, hs, he⟩ :=
    run_cases hcomposed.idle false readings
  · cases hstop
  · rw [he] at hrun
    cases Option.some.inj (Prod.mk.inj hrun).1
  · rw [he] at hrun
    obtain ⟨hanswer, rfl⟩ := Prod.mk.inj hrun
    obtain ⟨hwent, hdone⟩ := loop_went readings s₀
    have hempty := hdone hanswer
    have hclosed : ∀ x, x ∈ admittedIn attempts ∨
        .incomingConnection x ∈ (s₀.loop readings).2.early →
        Closed (s₀.loop readings).2.delivered x := by
      intro x hx
      refine ((hwent.held _ hs.held).taken x hx).resolve_left ?_
      rw [hempty]
      exact List.not_mem_nil
    refine ⟨hempty, fun attempts' ha' a ha x hx => hclosed x (.inl ?_), ?_⟩
    case refine_2 => exact fun x hx => hclosed x (.inr hx)
    obtain rfl := Except.ok.inj (hs.contacts.symm.trans ha')
    exact List.mem_filterMap.mpr ⟨a, ha, Outcome.toOption_some.mpr hx⟩

theorem run_released_sample : ∃ s, run sampleNode ({} : Router Sink) false sampleReadings =
    (some (.ok ()), s) ∧ s.delivered.length = 4 ∧ Released sampleNode s := by
  have hresult : (run sampleNode ({} : Router Sink) false sampleReadings).1 = some (.ok ()) := by
    decide +kernel
  have hlength : (run sampleNode ({} : Router Sink) false sampleReadings).2.delivered.length =
      4 := by decide +kernel
  rcases hrun : run sampleNode ({} : Router Sink) false sampleReadings with ⟨result, s⟩
  rw [hrun] at hresult hlength
  obtain rfl : result = some (.ok ()) := hresult
  exact ⟨s, rfl, hlength, run_released sample_composed hrun⟩

/-- A shutdown that was requested ends: the run is over by the first round that finds the
request repeated, or that comes after every deadline the shutdown may have been given. -/
theorem run_ends {config : Config} {n : Node π τ ι γ} {router : Router κ} (stopping : Bool)
    {first rest : List (Reading π τ ι γ)} {r₀ r : Reading π τ ι γ}
    (hcomposed : Composed config n router) (hstop : r₀.stopping = true) (hr : r ∈ r₀ :: rest)
    (hlate : r.forcing = true ∨ ∀ x ∈ first ++ [r₀],
      x.began + config.options.shutdownTimeout ≤ r.now) :
    (run n router stopping (first ++ r₀ :: rest)).1 ≠ none := by
  obtain ⟨-, he⟩ | ⟨-, failure, driver, -, -, he⟩ | ⟨-, attempts, ready, s, hs, he⟩ :=
    run_cases hcomposed.idle stopping (first ++ r₀ :: rest)
  · rw [he]
    exact fun h => by cases h
  · rw [he]
    exact fun h => by cases h
  · rw [he]
    refine loop_ready hs.stage first hstop hr ?_
    rw [hs.config]
    exact hlate

/-- The peers say nothing more, and the deadline passes. -/
theorem run_ends_sample : (run sampleNode ({} : Router Sink) false
    ([⟨false, false, 0, 0, [sampleChange 0 [{}]]⟩] ++ ⟨true, false, 1, 2, []⟩ ::
      [⟨true, false, 3, 6, []⟩])).1 ≠ none := by
  refine run_ends false sample_composed rfl (List.mem_cons_of_mem _ List.mem_cons_self)
    (.inr fun x hx => ?_)
  rcases List.mem_cons.mp hx with rfl | hx
  · decide
  · rw [List.mem_singleton.mp hx]
    decide

end

end TalkSphere.Server
