import TalkSphere.SessionVoice
import Mathlib.Logic.Relation
import Mathlib.Data.List.Nodup

/-! What the tables of a driver are for: every connection that is attempted or live has
one identity, its events are put on record in the order they happen, and it leaves the
tables when its closure is the last of them. -/

namespace TalkSphere

open Relation (ReflTransGen)

def about (id : ConnectionId) (events : List Event) : List Event :=
  events.filter fun e => e.connection? = some id

section about

variable {id : ConnectionId} {events more : List Event}

@[simp] theorem about_nil (id : ConnectionId) : about id [] = [] := rfl

@[simp] theorem about_append : about id (events ++ more) = about id events ++ about id more :=
  List.filter_append ..

theorem about_single_self {e : Event} (h : e.connection? = some id) : about id [e] = [e] := by
  simp [about, h]

theorem about_eq_nil : about id events = [] ↔ ∀ e ∈ events, e.connection? ≠ some id := by
  simp [about]

theorem about_other {e : Event} (h : e.connection? ≠ some id) :
    about id (events ++ [e]) = about id events := by
  simp [about, h]

theorem about_cons_self {e : Event} (h : e.connection? = some id) :
    about id (e :: events) = e :: about id events := by
  simp [about, h]

end about

/-- All events of one connection so far: its announcement, if there is one, is the first,
and its closure the last. -/
def Story (id : ConnectionId) (events : List Event) (ceased : Bool) : Prop :=
  ∃ announced said, events = announced ++ said ∧
    (announced = [] ∨ announced = [.incomingConnection ⟨id⟩]) ∧ Ends id false said ceased

namespace Story

variable {id : ConnectionId} {events before after : List Event} {ceased over' : Bool}

theorem start (id : ConnectionId) : Story id [] false :=
  ⟨[], [], rfl, .inl rfl, .going nofun⟩

theorem announced (id : ConnectionId) : Story id [.incomingConnection ⟨id⟩] false :=
  ⟨_, [], rfl, .inr rfl, .going nofun⟩

theorem append (h : Story id events ceased) (h' : Ends id ceased after over') :
    Story id (events ++ after) over' := by
  obtain ⟨announced, said, rfl, ha, hs⟩ := h
  exact ⟨announced, said ++ after, List.append_assoc .., ha, hs.trans h'⟩

theorem closed (h : Story id events false) (failure : Option Failure) :
    Story id (events ++ [.connectionClosed id failure]) true :=
  h.append (.closed id failure)

theorem closed_mem (h : Story id events true) :
    ∃ failure, .connectionClosed id failure ∈ events := by
  obtain ⟨announced, said, rfl, -, hs⟩ := h
  generalize ho : true = ceased at hs
  cases hs with
  | going => cases ho
  | @ends _ failure => exact ⟨failure, by simp⟩

theorem cut_last {α : Type} {before after pre : List α} {a b : α}
    (h : before ++ a :: after = pre ++ [b]) : after = [] ∨ a ∈ pre := by
  rcases List.eq_nil_or_concat after with ha | ⟨init, last, rfl⟩
  · exact .inl ha
  · have hpre := (List.append_inj' (show (before ++ a :: init) ++ [last] = pre ++ [b]
      by simpa using h) rfl).1
    exact .inr (by simp [← hpre])

theorem last {failure : Option Failure}
    (h : Story id (before ++ .connectionClosed id failure :: after) ceased) : after = [] := by
  obtain ⟨announced, said, he, ha, hs⟩ := h
  have hout : ∀ {inner : List Event}, (∀ e ∈ inner, e.isInner = true) →
      .connectionClosed id failure ∉ announced ++ inner := by
    intro inner hi hm
    rcases List.mem_append.mp hm with hm | hm
    · rcases ha with rfl | rfl <;> simp at hm
    · simpa [Event.isInner] using hi _ hm
  cases hs with
  | going inner => exact absurd (he ▸ by simp) (hout inner)
  | ends inner =>
    rw [← List.append_assoc] at he
    exact (cut_last he).resolve_right (hout inner)

theorem first (h : Story id (before ++ .incomingConnection ⟨id⟩ :: after) ceased) : before = [] := by
  obtain ⟨announced, said, he, ha, hs⟩ := h
  have hout : .incomingConnection ⟨id⟩ ∉ said := by
    intro hm
    cases hs with
    | going inner => simpa [Event.isInner] using inner _ hm
    | ends inner =>
      rcases List.mem_append.mp hm with hm | hm
      · simpa [Event.isInner] using inner _ hm
      · simp at hm
  rcases ha with rfl | rfl
  · rw [List.nil_append] at he
    exact absurd (he ▸ by simp) hout
  · cases before with
    | nil => rfl
    | cons e rest =>
      have hr : rest ++ .incomingConnection ⟨id⟩ :: after = said := (List.cons.inj he).2
      exact absurd (hr ▸ by simp) hout

end Story

/-- A live connection: the events that are not yet on record, and whether the closure is
among those said so far. -/
structure Line where
  id : ConnectionId
  queue : List Event
  ceased : Bool

structure Roster where
  log : List Event
  attempts : List ConnectionId
  live : List Line
  next : Nat

namespace Roster

variable {capacity : Nat} {g g' : Roster}

inductive Step (capacity : Nat) : Roster → Roster → Prop
  /-- Other capabilities are allocated from the same source. -/
  | issue {g : Roster} (count : Nat) : Step capacity g { g with next := g.next + count }
  | note {g : Roster} {e : Event} (other : e.connection? = none) :
      Step capacity g { g with log := g.log ++ [e] }
  | attempt {g : Roster} (room : g.attempts.length + g.live.length < capacity) :
      Step capacity g { g with attempts := g.attempts ++ [⟨g.next⟩], next := g.next + 1 }
  | refused {log : List Event} {before after : List ConnectionId} {live : List Line} {next : Nat}
      (id : ConnectionId) (failure : Option Failure) :
      Step capacity ⟨log, before ++ id :: after, live, next⟩
        ⟨log ++ [.connectionClosed id failure], before ++ after, live, next⟩
  | connected {log : List Event} {before after : List ConnectionId} {live : List Line} {next : Nat}
      (id : ConnectionId) :
      Step capacity ⟨log, before ++ id :: after, live, next⟩
        ⟨log, before ++ after, live ++ [⟨id, [], false⟩], next⟩
  | accepted {g : Roster} (room : g.attempts.length + g.live.length < capacity) :
      Step capacity g { g with live := g.live ++ [⟨⟨g.next⟩, [], false⟩], next := g.next + 1 }
  | incoming {g : Roster} (room : g.attempts.length + g.live.length < capacity) :
      Step capacity g { g with
        log := g.log ++ [.incomingConnection ⟨⟨g.next⟩⟩]
        live := g.live ++ [⟨⟨g.next⟩, [], false⟩], next := g.next + 1 }
  | turnedAway {g : Roster} (failure : Option Failure) :
      Step capacity g { g with
        log := g.log ++ [.connectionClosed ⟨g.next⟩ failure], next := g.next + 1 }
  | spoke {log : List Event} {attempts : List ConnectionId} {next : Nat} {line : Line}
      {events : List Event} {ceased : Bool} (before after : List Line)
      (own : ∀ e ∈ events, e.connection? = some line.id) (ends : Ends line.id line.ceased events ceased) :
      Step capacity ⟨log, attempts, before ++ line :: after, next⟩
        ⟨log, attempts, before ++ ⟨line.id, line.queue ++ events, ceased⟩ :: after, next⟩
  | heard {log : List Event} {attempts : List ConnectionId} {next : Nat} (before after : List Line)
      (id : ConnectionId) (e : Event) (queue : List Event) (ceased : Bool) :
      Step capacity ⟨log, attempts, before ++ ⟨id, e :: queue, ceased⟩ :: after, next⟩
        ⟨log ++ [e], attempts, before ++ ⟨id, queue, ceased⟩ :: after, next⟩
  | left {log : List Event} {attempts : List ConnectionId} {next : Nat} (before after : List Line)
      (id : ConnectionId) :
      Step capacity ⟨log, attempts, before ++ ⟨id, [], true⟩ :: after, next⟩
        ⟨log, attempts, before ++ after, next⟩
  | reorder {g : Roster} {live : List Line} (perm : g.live.Perm live) :
      Step capacity g { g with live }

def ids (g : Roster) : List ConnectionId := g.attempts ++ g.live.map Line.id

structure Valid (capacity : Nat) (g : Roster) : Prop where
  room : g.attempts.length + g.live.length ≤ capacity
  distinct : g.ids.Nodup
  used : ∀ id ∈ g.ids, id.instanceId < g.next
  known : ∀ e ∈ g.log, ∀ id, e.connection? = some id → id.instanceId < g.next
  silent : ∀ id ∈ g.attempts, about id g.log = []
  own : ∀ line ∈ g.live, ∀ e ∈ line.queue, e.connection? = some line.id
  story : ∀ line ∈ g.live, Story line.id (about line.id g.log ++ line.queue) line.ceased
  past : ∀ id ∉ g.ids, about id g.log = [] ∨ Story id (about id g.log) true

namespace Valid

theorem empty (capacity : Nat) : Valid capacity ⟨[], [], [], 0⟩ :=
  ⟨Nat.zero_le _, .nil, nofun, nofun, nofun, nofun, nofun, fun _ _ => .inl rfl⟩

theorem unheard (hv : g.Valid capacity) : about ⟨g.next⟩ g.log = [] :=
  about_eq_nil.mpr fun e he hc => absurd (hv.known e he _ hc) (Nat.lt_irrefl _)

theorem unused (hv : g.Valid capacity) : (⟨g.next⟩ : ConnectionId) ∉ g.ids :=
  fun h => absurd (hv.used _ h) (Nat.lt_irrefl _)

theorem issue (hv : g.Valid capacity) (count : Nat) :
    Valid capacity { g with next := g.next + count } where
  __ := hv
  used := fun id h => (hv.used id h).trans_le (Nat.le_add_right ..)
  known := fun e he id hc => (hv.known e he id hc).trans_le (Nat.le_add_right ..)

theorem mem_ids_live {line : Line} (h : line ∈ g.live) : line.id ∈ g.ids :=
  List.mem_append_right _ (List.mem_map_of_mem h)

theorem record (hv : g.Valid capacity) {e : Event}
    (other : ∀ id, e.connection? = some id →
      id ∉ g.ids ∧ id.instanceId < g.next ∧ Story id (about id g.log ++ [e]) true) :
    Valid capacity { g with log := g.log ++ [e] } := by
  have hsame : ∀ id ∈ g.ids, about id (g.log ++ [e]) = about id g.log := fun id hid =>
    about_other fun hc => (other id hc).1 hid
  refine ⟨hv.room, hv.distinct, hv.used, fun e' he id hc => ?_, fun id hid => ?_, hv.own,
    fun line hl => ?_, fun id hid => ?_⟩
  · rcases List.mem_append.mp he with he | he
    · exact hv.known e' he id hc
    · obtain rfl := List.mem_singleton.mp he
      exact (other id hc).2.1
  · exact (hsame id (List.mem_append_left _ hid)).trans (hv.silent id hid)
  · rw [hsame line.id (mem_ids_live hl)]
    exact hv.story line hl
  · by_cases hc : e.connection? = some id
    · rw [about_append, about_single_self hc]
      exact .inr (other id hc).2.2
    · rw [about_other hc]
      exact hv.past id hid

theorem attempt (hv : g.Valid capacity) (room : g.attempts.length + g.live.length < capacity) :
    Valid capacity { g with attempts := g.attempts ++ [⟨g.next⟩], next := g.next + 1 } := by
  have hperm : (g.attempts ++ [(⟨g.next⟩ : ConnectionId)] ++ g.live.map Line.id).Perm
      (⟨g.next⟩ :: g.ids) := by
    rw [List.append_assoc]
    exact List.perm_middle
  refine ⟨by simp only [List.length_append, List.length_singleton]; omega,
    (hperm.nodup_iff).mpr (List.nodup_cons.mpr ⟨hv.unused, hv.distinct⟩), fun id hid => ?_,
    fun e he id hc => (hv.known e he id hc).trans (Nat.lt_succ_self _), fun id hid => ?_, hv.own,
    hv.story, fun id hid => hv.past id fun h => hid (hperm.mem_iff.mpr (List.mem_cons_of_mem _ h))⟩
  · rcases List.mem_cons.mp (hperm.mem_iff.mp hid) with rfl | h
    · exact Nat.lt_succ_self _
    · exact (hv.used id h).trans (Nat.lt_succ_self _)
  · rcases List.mem_append.mp hid with h | h
    · exact hv.silent id h
    · exact List.mem_singleton.mp h ▸ hv.unheard

theorem enlist (hv : g.Valid capacity) (room : g.attempts.length + g.live.length < capacity)
    {id : ConnectionId} (unused : id ∉ g.ids) (known : id.instanceId < g.next)
    (unheard : about id g.log = []) :
    Valid capacity { g with live := g.live ++ [⟨id, [], false⟩] } := by
  have hids : g.attempts ++ (g.live ++ [(⟨id, [], false⟩ : Line)]).map Line.id = g.ids ++ [id] := by
    simp [ids]
  refine ⟨?_, ?_, fun id' hid => ?_, hv.known, hv.silent, fun line hl => ?_, fun line hl => ?_,
    fun id' hid => hv.past id' fun h => hid ?_⟩
  · simp only [List.length_append, List.length_singleton]
    omega
  · rw [ids, hids]
    exact List.nodup_append.mpr ⟨hv.distinct, List.nodup_singleton _, fun a ha b hb h =>
      unused (by rwa [← List.mem_singleton.mp hb, ← h])⟩
  · rw [ids, hids, List.mem_append, List.mem_singleton] at hid
    rcases hid with hid | rfl
    · exact hv.used id' hid
    · exact known
  · rcases List.mem_append.mp hl with hl | hl
    · exact hv.own line hl
    · rw [List.mem_singleton.mp hl]
      nofun
  · rcases List.mem_append.mp hl with hl | hl
    · exact hv.story line hl
    · rw [List.mem_singleton.mp hl]
      simpa only [unheard, List.append_nil] using Story.start id
  · rw [ids, hids]
    exact List.mem_append_left _ h

section attempts

variable {log : List Event} {before after : List ConnectionId} {live : List Line} {next : Nat}
  {id : ConnectionId}

theorem withdraw (hv : Valid capacity ⟨log, before ++ id :: after, live, next⟩) :
    Valid capacity ⟨log, before ++ after, live, next⟩ ∧
      id ∉ ids ⟨log, before ++ after, live, next⟩ ∧ id.instanceId < next ∧ about id log = [] := by
  have hperm : (before ++ id :: after ++ live.map Line.id).Perm
      (id :: (before ++ after ++ live.map Line.id)) := by
    rw [List.append_assoc, List.append_assoc]
    exact List.perm_middle
  have hnodup := List.nodup_cons.mp (hperm.nodup_iff.mp hv.distinct)
  have hsub : ∀ id' ∈ before ++ after, id' ∈ before ++ id :: after := fun id' h => by
    rcases List.mem_append.mp h with h | h <;> simp [h]
  refine ⟨⟨?_, hnodup.2, fun id' h => hv.used id' ?_, hv.known,
    fun id' h => hv.silent id' (hsub id' h), hv.own, hv.story, fun id' h => ?_⟩, hnodup.1,
    hv.used id ?_, hv.silent id (by simp)⟩
  · have := hv.room
    simp only [List.length_append, List.length_cons] at this ⊢
    omega
  · exact hperm.mem_iff.mpr (List.mem_cons_of_mem _ h)
  · by_cases he : id' = id
    · exact .inl (he ▸ hv.silent id (by simp))
    · exact hv.past id' fun h' => h ((List.mem_cons.mp (hperm.mem_iff.mp h')).resolve_left he)
  · exact hperm.mem_iff.mpr List.mem_cons_self

end attempts

section live

variable {log : List Event} {attempts : List ConnectionId} {before after : List Line} {next : Nat}
  {line : Line}

theorem others (hv : Valid capacity ⟨log, attempts, before ++ line :: after, next⟩) :
    line.id ∉ attempts ∧ ∀ l ∈ before ++ after, l.id ≠ line.id := by
  have hd := hv.distinct
  simp only [ids, List.map_append, List.map_cons] at hd
  have hperm : (attempts ++ (before.map Line.id ++ line.id :: after.map Line.id)).Perm
      (line.id :: (attempts ++ (before ++ after).map Line.id)) := by
    rw [List.map_append, ← List.append_assoc, ← List.append_assoc]
    exact List.perm_middle
  have hn := (List.nodup_cons.mp (hperm.nodup_iff.mp hd)).1
  rw [List.mem_append, not_or] at hn
  exact ⟨hn.1, fun l hl h => hn.2 (h ▸ List.mem_map_of_mem hl)⟩

theorem change (hv : Valid capacity ⟨log, attempts, before ++ line :: after, next⟩) (line' : Line)
    (more : List Event) (id : line'.id = line.id)
    (own : ∀ e ∈ more ++ line'.queue, e.connection? = some line.id)
    (story : Story line.id (about line.id log ++ more ++ line'.queue) line'.ceased) :
    Valid capacity ⟨log ++ more, attempts, before ++ line' :: after, next⟩ := by
  obtain ⟨hatt, hline⟩ := hv.others
  have hids : ids ⟨log ++ more, attempts, before ++ line' :: after, next⟩ =
      ids ⟨log, attempts, before ++ line :: after, next⟩ := by
    simp [ids, id]
  have hmore : about line.id more = more :=
    List.filter_eq_self.mpr fun e he => by simpa using own e (List.mem_append_left _ he)
  have hsame : ∀ id' ≠ line.id, about id' (log ++ more) = about id' log := by
    intro id' hne
    have hnone : about id' more = [] := about_eq_nil.mpr fun e he hc =>
      hne (Option.some.inj (hc.symm.trans (own e (List.mem_append_left _ he))))
    rw [about_append, hnone, List.append_nil]
  have hmem : ∀ l ∈ before ++ line' :: after, l = line' ∨ l ∈ before ++ after := by
    intro l hl
    simp only [List.mem_append, List.mem_cons] at hl ⊢
    tauto
  have hold : ∀ l ∈ before ++ after, l ∈ before ++ line :: after := by
    intro l hl
    simp only [List.mem_append, List.mem_cons] at hl ⊢
    tauto
  refine ⟨?_, hids ▸ hv.distinct, fun id' h => hv.used id' (hids ▸ h), fun e he id' hc => ?_,
    fun id' h => ?_, fun l hl => ?_, fun l hl => ?_, fun id' h => ?_⟩
  · have := hv.room
    simp only [List.length_append, List.length_cons] at this ⊢
    exact this
  · rcases List.mem_append.mp he with he | he
    · exact hv.known e he id' hc
    · obtain rfl := Option.some.inj (hc.symm.trans (own e (List.mem_append_left _ he)))
      exact hv.used line.id (mem_ids_live (by simp))
  · exact (hsame id' fun he => hatt (he ▸ h)).trans (hv.silent id' h)
  · rcases hmem l hl with rfl | hl
    · exact fun e he => id ▸ own e (List.mem_append_right _ he)
    · exact hv.own l (hold l hl)
  · rcases hmem l hl with rfl | hl
    · rw [id, about_append, hmore]
      exact story
    · rw [hsame l.id (hline l hl)]
      exact hv.story l (hold l hl)
  · rw [hids] at h
    rw [hsame id' fun he => h (he ▸ mem_ids_live (by simp))]
    exact hv.past id' h

theorem spoke (hv : Valid capacity ⟨log, attempts, before ++ line :: after, next⟩)
    {events : List Event} {ceased : Bool} (own : ∀ e ∈ events, e.connection? = some line.id)
    (ends : Ends line.id line.ceased events ceased) :
    Valid capacity ⟨log, attempts, before ++ ⟨line.id, line.queue ++ events, ceased⟩ :: after, next⟩ := by
  have hq := hv.own line (by simp)
  have hs := (hv.story line (by simp)).append ends
  have hc := hv.change ⟨line.id, line.queue ++ events, ceased⟩ [] rfl
    (by simpa [or_imp, forall_and] using ⟨hq, own⟩)
    (by simpa only [List.append_nil, List.append_assoc] using hs)
  simpa only [List.append_nil] using hc

theorem left {id : ConnectionId}
    (hv : Valid capacity ⟨log, attempts, before ++ ⟨id, [], true⟩ :: after, next⟩) :
    Valid capacity ⟨log, attempts, before ++ after, next⟩ := by
  have hs : Story id (about id log) true := by
    simpa only [List.append_nil] using hv.story ⟨id, [], true⟩ (by simp)
  have hold : ∀ l ∈ before ++ after, l ∈ before ++ ⟨id, [], true⟩ :: after := by
    intro l hl
    simp only [List.mem_append, List.mem_cons] at hl ⊢
    tauto
  have hperm : (attempts ++ (before ++ ⟨id, [], true⟩ :: after).map Line.id).Perm
      (id :: (attempts ++ (before ++ after).map Line.id)) := by
    rw [List.map_append, List.map_append, List.map_cons, ← List.append_assoc, ← List.append_assoc]
    exact List.perm_middle
  refine ⟨?_, (List.nodup_cons.mp (hperm.nodup_iff.mp hv.distinct)).2,
    fun id' h => hv.used id' (hperm.mem_iff.mpr (List.mem_cons_of_mem _ h)), hv.known, hv.silent,
    fun l hl => hv.own l (hold l hl), fun l hl => hv.story l (hold l hl), fun id' h => ?_⟩
  · have := hv.room
    simp only [List.length_append, List.length_cons] at this ⊢
    omega
  · by_cases he : id' = id
    · exact .inr (he ▸ hs)
    · exact hv.past id' fun h' => h ((List.mem_cons.mp (hperm.mem_iff.mp h')).resolve_left he)

end live

theorem step (hv : g.Valid capacity) (h : Step capacity g g') : g'.Valid capacity := by
  cases h with
  | issue count => exact hv.issue count
  | note other => exact hv.record fun id hc => by simp [other] at hc
  | attempt room => exact hv.attempt room
  | refused id failure =>
    obtain ⟨hw, hout, hlt, hnone⟩ := hv.withdraw
    refine hw.record fun id' hc => ?_
    obtain rfl := Option.some.inj hc
    exact ⟨hout, hlt, by simpa only [hnone, List.nil_append] using (Story.start _).closed failure⟩
  | connected id =>
    obtain ⟨hw, hout, hlt, hnone⟩ := hv.withdraw
    refine hw.enlist ?_ hout hlt hnone
    have := hv.room
    simp only [List.length_append, List.length_cons] at this ⊢
    omega
  | accepted room => exact (hv.issue 1).enlist room hv.unused (Nat.lt_succ_self _) hv.unheard
  | incoming room =>
    have he := (hv.issue 1).enlist room hv.unused (Nat.lt_succ_self _) hv.unheard
    refine he.change ⟨⟨g.next⟩, [], false⟩ [.incomingConnection ⟨⟨g.next⟩⟩] rfl (fun e hm => ?_) ?_
    · simp only [List.append_nil, List.mem_singleton] at hm
      rw [hm]
      rfl
    · simpa only [hv.unheard, List.append_nil, List.nil_append] using Story.announced ⟨g.next⟩
  | turnedAway failure =>
    refine (hv.issue 1).record fun id hc => ?_
    obtain rfl := Option.some.inj hc
    refine ⟨hv.unused, Nat.lt_succ_self _, ?_⟩
    simpa only [hv.unheard, List.nil_append] using (Story.start _).closed failure
  | spoke before after own ends => exact hv.spoke own ends
  | heard before after id e queue ceased =>
    have hs := hv.story ⟨id, e :: queue, ceased⟩ (by simp)
    have hq := hv.own ⟨id, e :: queue, ceased⟩ (by simp)
    exact hv.change ⟨id, queue, ceased⟩ [e] rfl (by simpa using hq) (by simpa using hs)
  | left before after id => exact hv.left
  | @reorder _ lines perm =>
    have hp : (g.attempts ++ lines.map Line.id).Perm g.ids := (perm.symm.map _).append_left _
    exact ⟨perm.length_eq ▸ hv.room, hp.nodup_iff.mpr hv.distinct,
      fun id h => hv.used id (hp.mem_iff.mp h), hv.known, hv.silent,
      fun l hl => hv.own l (perm.mem_iff.mpr hl), fun l hl => hv.story l (perm.mem_iff.mpr hl),
      fun id h => hv.past id fun h' => h (hp.mem_iff.mpr h')⟩

theorem steps (hv : g.Valid capacity) (h : ReflTransGen (Step capacity) g g') :
    g'.Valid capacity := by
  induction h with
  | refl => exact hv
  | tail _ h ih => exact ih.step h

theorem closure_last (hv : g.Valid capacity) {id : ConnectionId} {failure : Option Failure}
    {before after : List Event} (h : g.log = before ++ .connectionClosed id failure :: after) :
    about id after = [] := by
  have habout : about id g.log = about id before ++ .connectionClosed id failure :: about id after := by
    rw [h, about_append, about_cons_self rfl]
  by_cases hid : id ∈ g.ids
  · rcases List.mem_append.mp hid with ha | hl
    · exact absurd (hv.silent id ha) (by simp [habout])
    · obtain ⟨line, hline, rfl⟩ := List.mem_map.mp hl
      have hs := hv.story line hline
      rw [habout, List.append_assoc, List.cons_append] at hs
      exact (List.append_eq_nil_iff.mp hs.last).1
  · rcases hv.past id hid with hn | hs
    · simp [habout] at hn
    · rw [habout] at hs
      exact hs.last

theorem announcement_first (hv : g.Valid capacity) {handle : ConnectionHandle}
    {before after : List Event} (h : g.log = before ++ .incomingConnection handle :: after) :
    about handle.id before = [] := by
  have habout : about handle.id g.log =
      about handle.id before ++ .incomingConnection handle :: about handle.id after := by
    rw [h, about_append, about_cons_self rfl]
  by_cases hid : handle.id ∈ g.ids
  · rcases List.mem_append.mp hid with ha | hl
    · exact absurd (hv.silent _ ha) (by simp [habout])
    · obtain ⟨line, hline, he⟩ := List.mem_map.mp hl
      have hs := hv.story line hline
      rw [he, habout, List.append_assoc, List.cons_append] at hs
      exact hs.first
  · rcases hv.past _ hid with hn | hs
    · simp [habout] at hn
    · rw [habout] at hs
      exact hs.first

end Valid

def Closed (g : Roster) (id : ConnectionId) : Prop := ∃ failure, .connectionClosed id failure ∈ g.log

theorem Step.log (h : Step capacity g g') : g.log <+: g'.log := by
  cases h <;> first | exact List.prefix_rfl | exact List.prefix_append ..

theorem Step.closed (h : Step capacity g g') {id : ConnectionId} (hc : g.Closed id) : g'.Closed id := by
  obtain ⟨failure, hc⟩ := hc
  exact ⟨failure, h.log.subset hc⟩

theorem Step.live (hv : g.Valid capacity) (h : Step capacity g g') {id : ConnectionId}
    (hid : id ∈ g.live.map Line.id) : id ∈ g'.live.map Line.id ∨ g'.Closed id := by
  cases h with
  | issue | note | attempt | refused | turnedAway => exact .inl hid
  | connected | accepted | incoming =>
    rw [List.map_append]
    exact .inl (List.mem_append_left _ hid)
  | spoke | heard =>
    simp only [List.map_append, List.map_cons] at hid ⊢
    exact .inl hid
  | left before after gone =>
    simp only [List.map_append, List.map_cons, List.mem_append, List.mem_cons] at hid ⊢
    by_cases he : id = gone
    · subst he
      have hs := hv.story ⟨id, [], true⟩ (by simp)
      obtain ⟨failure, hf⟩ := hs.closed_mem
      rw [List.append_nil] at hf
      exact .inr ⟨failure, List.mem_of_mem_filter hf⟩
    · tauto
  | reorder perm => exact .inl ((perm.map Line.id).mem_iff.mp hid)

theorem Step.attempts (h : Step capacity g g') {id : ConnectionId} (hid : id ∈ g.attempts) :
    id ∈ g'.attempts ∨ id ∈ g'.live.map Line.id ∨ g'.Closed id := by
  cases h with
  | issue | note | accepted | incoming | turnedAway | spoke | heard | left | reorder => exact .inl hid
  | attempt => exact .inl (List.mem_append_left _ hid)
  | refused gone failure =>
    simp only [List.mem_append, List.mem_cons] at hid ⊢
    by_cases he : id = gone
    · exact .inr (.inr ⟨failure, by simp [he]⟩)
    · tauto
  | connected gone =>
    simp only [List.mem_append, List.mem_cons, List.map_append, List.map_cons] at hid ⊢
    tauto

theorem steps_live (hv : g.Valid capacity) (h : ReflTransGen (Step capacity) g g')
    {id : ConnectionId} (hid : id ∈ g.live.map Line.id) :
    id ∈ g'.live.map Line.id ∨ g'.Closed id := by
  induction h with
  | refl => exact .inl hid
  | tail hs h ih =>
    rcases ih with ih | ih
    · exact h.live (hv.steps hs) ih
    · exact .inr (h.closed ih)

theorem steps_attempts (hv : g.Valid capacity) (h : ReflTransGen (Step capacity) g g')
    {id : ConnectionId} (hid : id ∈ g.attempts) :
    id ∈ g'.attempts ∨ id ∈ g'.live.map Line.id ∨ g'.Closed id := by
  induction h with
  | refl => exact .inl hid
  | tail hs h ih =>
    rcases ih with ih | ih | ih
    · exact h.attempts ih
    · exact .inr (h.live (hv.steps hs) ih)
    · exact .inr (.inr (h.closed ih))

end Roster

end TalkSphere
