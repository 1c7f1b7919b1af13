import Mathlib.Data.List.Nodup
import TalkSphere.Rotation
import TalkSphere.SessionActs
import TalkSphere.SessionEvents

/-! The order in which queued frames leave, over every run of a session. A ledger
numbers the frames as they are admitted and records where each one went. -/

namespace TalkSphere

open Relation (ReflTransGen)

def WireFrame.WaitsFor (f g : WireFrame) : Prop :=
  f.header.streamId = g.header.streamId ∨
    (f.header.frameType = .open_ ∨ f.header.frameType = .goAway) ∧ g.header.frameType = .open_

namespace Session

def choose (last : Option UInt32) (frames : List WireFrame) : Option (UInt32 × Nat) :=
  let ready := eligible (frames.findIdx? fun f => f.header.frameType == .open_) 0 [] frames
  (minById (ready.filter fun e => last.all (· < e.1))).or (minById ready)

theorem nextOutput_eq (s : Session) : s.nextOutput =
    match choose s.lastOutput s.outbound with
    | none => (none, s)
    | some (id, index) =>
      (s.outbound[index]?, { s with lastOutput := some id, outbound := s.outbound.eraseIdx index }) :=
  rfl

theorem findIdx?_open {pre post : List WireFrame} {f : WireFrame} {i : Nat}
    (h : (pre ++ f :: post).findIdx? (fun f => f.header.frameType == .open_) = some i) :
    i < pre.length ↔ ∃ g ∈ pre, g.header.frameType = .open_ := by
  obtain ⟨hlt, hi, hbefore⟩ := List.findIdx?_eq_some_iff_getElem.mp h
  constructor
  · intro hpre
    refine ⟨pre[i], List.getElem_mem hpre, ?_⟩
    rw [List.getElem_append_left hpre] at hi
    simpa using hi
  · rintro ⟨g, hg, ht⟩
    by_contra hge
    obtain ⟨k, hk, rfl⟩ := List.getElem_of_mem hg
    have hn := hbefore k (by omega)
    rw [List.getElem_append_left hk] at hn
    simp [ht] at hn

theorem eligible_complete {firstOpen : Option Nat} {pre post : List WireFrame} {f : WireFrame}
    {index : Nat} {seen : List UInt32} (hseen : f.header.streamId ∉ seen)
    (hl : Leads firstOpen index pre f) :
    (f.header.streamId, index + pre.length) ∈ eligible firstOpen index seen (pre ++ f :: post) := by
  induction pre generalizing index seen with
  | nil =>
    have ho := hl.opens
    have hg := hl.goes
    simp only [List.length_nil, Nat.add_zero] at ho hg
    simp only [List.nil_append, eligible, hseen, if_false]
    rw [if_neg (fun h => h.2 (ho h.1)), if_neg (fun h => by rw [hg h.1] at h; cases h.2)]
    exact List.mem_cons_self
  | cons g pre ih =>
    have hne : f.header.streamId ≠ g.header.streamId :=
      (hl.first g List.mem_cons_self).symm
    have hlen : index + (g :: pre).length = index + 1 + pre.length := by
      simp only [List.length_cons]
      omega
    have hl' : Leads firstOpen (index + 1) pre f :=
      ⟨fun k hk => hl.first k (List.mem_cons_of_mem _ hk), hlen ▸ hl.opens, hlen ▸ hl.goes⟩
    have hin : ∀ seen', f.header.streamId ∉ seen' → (f.header.streamId, index + (g :: pre).length) ∈
        eligible firstOpen (index + 1) seen' (pre ++ f :: post) :=
      fun seen' hs => hlen ▸ ih hs hl'
    have hskip := hin seen hseen
    have hmark := hin (g.header.streamId :: seen) (by simp [hne, hseen])
    simp only [List.cons_append, eligible]
    split
    · exact hskip
    · split
      · exact hmark
      · split
        · exact hmark
        · exact List.mem_cons_of_mem _ hmark

theorem mem_eligible_iff {frames : List WireFrame} {id : UInt32} {i : Nat} :
    (id, i) ∈ eligible (frames.findIdx? fun f => f.header.frameType == .open_) 0 [] frames ↔
      ∃ pre f post, frames = pre ++ f :: post ∧ i = pre.length ∧ f.header.streamId = id ∧
        ∀ g ∈ pre, ¬ f.WaitsFor g := by
  constructor
  · intro h
    obtain ⟨-, pre, f, post, rfl, hi, hid, hl⟩ := mem_eligible h
    have ho := hl.opens
    have hg := hl.goes
    simp only [Nat.zero_add] at hi ho hg
    refine ⟨pre, f, post, rfl, hi, hid, fun g hm hw => ?_⟩
    rcases hw with he | ⟨hk, ht⟩
    · exact hl.first g hm he.symm
    · have hsome : ∃ k, (pre ++ f :: post).findIdx? (fun f => f.header.frameType == .open_) =
          some k := by
        rw [← Option.isSome_iff_exists, List.findIdx?_isSome]
        exact List.any_eq_true.mpr ⟨g, List.mem_append_left _ hm, by simpa using ht⟩
      obtain ⟨k, hk'⟩ := hsome
      have hlt := (findIdx?_open hk').mpr ⟨g, hm, ht⟩
      rcases hk with hk | hk
      · have := ho hk
        rw [hk'] at this
        exact absurd (Option.some.inj this) (by omega)
      · have := hg hk
        rw [hk'] at this
        simp [hlt] at this
  · rintro ⟨pre, f, post, rfl, rfl, rfl, hw⟩
    have hnone : ∀ k, (pre ++ f :: post).findIdx? (fun f => f.header.frameType == .open_) = some k →
        (f.header.frameType = .open_ ∨ f.header.frameType = .goAway) → ¬ k < pre.length := by
      intro k hk ht hlt
      obtain ⟨g, hg, hgo⟩ := (findIdx?_open hk).mp hlt
      exact hw g hg (.inr ⟨ht, hgo⟩)
    have hlead : Leads ((pre ++ f :: post).findIdx? fun f => f.header.frameType == .open_) 0 pre f := by
      refine ⟨fun g hg he => hw g hg (.inl he.symm), fun ht => ?_, fun ht => ?_⟩
      · have hfirst : ∀ g ∈ pre, (g.header.frameType == .open_) = false := by
          intro g hg
          rw [beq_eq_false_iff_ne]
          exact fun hgo => hw g hg (.inr ⟨.inl ht, hgo⟩)
        rw [List.findIdx?_append, List.findIdx?_eq_none_iff.mpr hfirst, List.findIdx?_cons]
        simp [ht]
      · cases hk : (pre ++ f :: post).findIdx? fun f => f.header.frameType == .open_ with
        | none => rfl
        | some k =>
          have hge := hnone k hk (.inr ht)
          simpa using not_lt.mp hge
    have hin : (f.header.streamId, 0 + pre.length) ∈ eligible
        ((pre ++ f :: post).findIdx? fun f => f.header.frameType == .open_) 0 [] (pre ++ f :: post) :=
      eligible_complete (by simp) hlead
    rwa [Nat.zero_add] at hin

theorem minById_le {l : List (UInt32 × Nat)} {e : UInt32 × Nat} (h : minById l = some e) :
    ∀ x ∈ l, e.1 ≤ x.1 := by
  induction l generalizing e with
  | nil => cases h
  | cons a l ih =>
    simp only [minById] at h
    split at h
    case h_1 hn =>
      cases h
      rw [minById_eq_none] at hn
      simp [hn]
    case h_2 m hm =>
      have hle := ih hm
      split at h
      case isTrue hlt =>
        cases h
        rintro x (_ | ⟨_, hx⟩)
        · exact UInt32.le_of_lt hlt
        · exact hle x hx
      case isFalse hlt =>
        cases h
        rintro x (_ | ⟨_, hx⟩)
        · exact UInt32.le_refl _
        · exact UInt32.le_trans (UInt32.not_lt.mp hlt) (hle x hx)

def readyIds (frames : List WireFrame) : List Nat :=
  (eligible (frames.findIdx? fun f => f.header.frameType == .open_) 0 [] frames).map (·.1.toNat)

theorem mem_readyIds {pre post : List WireFrame} {f : WireFrame} (hw : ∀ g ∈ pre, ¬ f.WaitsFor g) :
    f.header.streamId.toNat ∈ readyIds (pre ++ f :: post) :=
  List.mem_map.mpr ⟨(_, pre.length), mem_eligible_iff.mpr ⟨pre, f, post, rfl, rfl, rfl, hw⟩, rfl⟩

theorem choose_chosen {last : Option UInt32} {frames : List WireFrame} {id : UInt32} {i : Nat}
    (h : choose last frames = some (id, i)) :
    Rotation.Chosen (last.map UInt32.toNat) (readyIds frames) id.toNat := by
  have hlast : ∀ j : UInt32, (last.map UInt32.toNat).all (· < j.toNat) = last.all (· < j) := by
    intro j
    cases last <;> simp [UInt32.lt_iff_toNat_lt]
  have hmem := mem_of_choice h
  refine ⟨List.mem_map.mpr ⟨_, hmem, rfl⟩, ?_⟩
  simp only [choose] at h
  rw [Option.or_eq_some_iff] at h
  simp only [readyIds, List.forall_mem_map, hlast]
  rcases h with h | ⟨hnone, h⟩
  · have hin := List.mem_filter.mp (mem_of_minById h)
    refine .inl ⟨hin.2, fun x hx hlt => ?_⟩
    exact UInt32.le_iff_toNat_le.mp (minById_le h x (List.mem_filter.mpr ⟨hx, hlt⟩))
  · rw [minById_eq_none, List.filter_eq_nil_iff] at hnone
    exact .inr ⟨fun x hx => Bool.eq_false_iff.mpr (hnone x hx),
      fun x hx => UInt32.le_iff_toNat_le.mp (minById_le h x hx)⟩

theorem choose_split {last : Option UInt32} {frames : List WireFrame} {id : UInt32} {i : Nat}
    (h : choose last frames = some (id, i)) : ∃ pre f post, frames = pre ++ f :: post ∧
      i = pre.length ∧ f.header.streamId = id ∧ ∀ g ∈ pre, ¬ f.WaitsFor g :=
  mem_eligible_iff.mp (mem_of_choice h)

end Session

/-- An admitted frame with its number. -/
abbrev Entry := Nat × WireFrame

/-- Where every admitted frame is: still queued, handed out or deleted. -/
structure Ledger where
  queue : List Entry := []
  last : Option UInt32 := none
  issued : Nat := 0
  popped : List Entry := []
  deleted : List Entry := []

namespace Ledger

def edit (l : Ledger) : Edit → Ledger
  | .push f => { l with queue := l.queue ++ [(l.issued, f)], issued := l.issued + 1 }
  | .purge id => { l with
      queue := l.queue.filter fun e => Session.retained id e.2
      deleted := l.deleted ++ l.queue.filter fun e => !Session.retained id e.2 }
  | .clear => { l with queue := [], deleted := l.deleted ++ l.queue }

def pop (l : Ledger) : Ledger :=
  match Session.choose l.last (l.queue.map Prod.snd) with
  | none => l
  | some (id, i) => { l with
      queue := l.queue.eraseIdx i, last := some id, popped := l.popped ++ l.queue[i]?.toList }

def entries (l : Ledger) : List Entry := l.popped ++ l.deleted ++ l.queue

structure Keeps (o : Output) (l : Ledger) : Prop where
  queue : l.queue.map Prod.snd = o.queue
  last : l.last = o.last
  sorted : l.queue.Pairwise fun a b => a.1 < b.1
  account : (l.entries.map Prod.fst).Perm (List.range l.issued)
  order : l.popped.Pairwise fun a b => a.2.WaitsFor b.2 → a.1 < b.1
  ahead : ∀ a ∈ l.popped, ∀ b ∈ l.queue, a.2.WaitsFor b.2 → a.1 < b.1
  opens : ∀ a ∈ l.entries, ∀ b ∈ l.entries, a.2.header.frameType = .open_ →
    b.2.header.frameType = .open_ → a.1 < b.1 → a.2.header.streamId < b.2.header.streamId
  greatest : ∀ a ∈ l.entries, a.2.header.frameType = .open_ → a.2.header.streamId ≤ o.greatest

variable {o o' : Output} {l : Ledger}

theorem Keeps.number_lt (h : Keeps o l) {a : Entry} (ha : a ∈ l.entries) : a.1 < l.issued :=
  List.mem_range.mp (h.account.mem_iff.mp (List.mem_map_of_mem ha))

theorem mem_entries_queue {a : Entry} (h : a ∈ l.queue) : a ∈ l.entries :=
  List.mem_append_right _ h

theorem mem_entries_popped {a : Entry} (h : a ∈ l.popped) : a ∈ l.entries :=
  List.mem_append_left _ (List.mem_append_left _ h)

theorem entries_push (l : Ledger) (f : WireFrame) :
    (l.edit (.push f)).entries = l.entries ++ [(l.issued, f)] := by
  simp only [entries, edit, List.append_assoc]

theorem Keeps.push (h : Keeps o l) (f : WireFrame) {resources : Resources} {greatest : UInt32}
    (hg : o.greatest ≤ greatest)
    (ho : f.header.frameType = .open_ → o.greatest < f.header.streamId ∧
      f.header.streamId ≤ greatest) :
    Keeps { o with queue := o.queue ++ [f], resources, greatest } (l.edit (.push f)) where
  queue := by simp only [edit, List.map_append, h.queue, List.map_cons, List.map_nil]
  last := h.last
  sorted := by
    refine List.pairwise_append.mpr ⟨h.sorted, List.pairwise_singleton .., fun a ha b hb => ?_⟩
    rw [List.mem_singleton.mp hb]
    exact h.number_lt (mem_entries_queue ha)
  account := by
    rw [entries_push, List.map_append]
    simp only [edit, List.range_succ, List.map_cons, List.map_nil]
    exact h.account.append_right _
  order := h.order
  ahead := by
    intro a ha b hb hw
    rcases List.mem_append.mp hb with hb | hb
    · exact h.ahead a ha b hb hw
    · rw [List.mem_singleton.mp hb]
      exact h.number_lt (mem_entries_popped ha)
  opens := by
    rw [entries_push]
    intro a ha b hb hoa hob hlt
    rcases List.mem_append.mp ha with ha | ha <;> rcases List.mem_append.mp hb with hb | hb
    · exact h.opens a ha b hb hoa hob hlt
    · rw [List.mem_singleton.mp hb] at hob ⊢
      exact UInt32.lt_of_le_of_lt (h.greatest a ha hoa) (ho hob).1
    · have := h.number_lt hb
      rw [List.mem_singleton.mp ha] at hlt
      omega
    · rw [List.mem_singleton.mp ha, List.mem_singleton.mp hb] at hlt
      exact absurd hlt (lt_irrefl _)
  greatest := by
    rw [entries_push]
    intro a ha hoa
    rcases List.mem_append.mp ha with ha | ha
    · exact UInt32.le_trans (h.greatest a ha hoa) hg
    · rw [List.mem_singleton.mp ha] at hoa ⊢
      exact (ho hoa).2

theorem Keeps.remove (h : Keeps o l) {l' : Ledger} (hq : l'.queue.Sublist l.queue)
    (hm : l'.queue.map Prod.snd = o'.queue) (hl : l'.last = o'.last) (hi : l'.issued = l.issued)
    (hg : o'.greatest = o.greatest) (he : l'.entries.Perm l.entries)
    (ho : l'.popped.Pairwise fun a b => a.2.WaitsFor b.2 → a.1 < b.1)
    (ha : ∀ a ∈ l'.popped, ∀ b ∈ l'.queue, a.2.WaitsFor b.2 → a.1 < b.1) : Keeps o' l' where
  queue := hm
  last := hl
  sorted := h.sorted.sublist hq
  account := hi ▸ (he.map Prod.fst).trans h.account
  order := ho
  ahead := ha
  opens := fun a ha b hb => h.opens a (he.mem_iff.mp ha) b (he.mem_iff.mp hb)
  greatest := fun a ha => hg ▸ h.greatest a (he.mem_iff.mp ha)

theorem Keeps.purge (h : Keeps o l) (id : UInt32) {resources : Resources} :
    Keeps { o with queue := o.queue.filter (Session.retained id), resources }
      (l.edit (.purge id)) := by
  refine h.remove List.filter_sublist ?_ h.last rfl rfl ?_ h.order fun a ha b hb =>
    h.ahead a ha b (List.mem_filter.mp hb).1
  · rw [← h.queue, List.filter_map]
    rfl
  · simp only [entries, edit, List.append_assoc]
    refine .append_left _ (.append_left _ ?_)
    exact List.perm_append_comm.trans (List.filter_append_perm _ l.queue)

theorem Keeps.clear (h : Keeps o l) {resources : Resources} {closed : Bool} :
    Keeps { o with queue := [], resources, closed } (l.edit .clear) := by
  refine h.remove (List.nil_sublist _) rfl h.last rfl rfl ?_ h.order fun a ha b hb => nomatch hb
  simp only [entries, edit, List.append_assoc, List.append_nil]
  exact .refl _

theorem Keeps.act (h : Keeps o l) {e : Edit} (ha : Output.Act o e o') : Keeps o' (l.edit e) := by
  cases ha with
  | push hk hr => exact h.push _ (UInt32.le_refl _) fun ho => absurd ho hk
  | opens hk hf hr => exact h.push _ (UInt32.le_of_lt hf) fun _ => ⟨hf, UInt32.le_refl _⟩
  | purge id => exact h.purge id
  | shut => exact h.clear

theorem Keeps.acts (h : Keeps o l) {edits : List Edit} (ha : Output.Acts o edits o') :
    Keeps o' (edits.foldl edit l) := by
  induction ha with
  | refl => exact h
  | tail _ hact ih =>
    rw [List.foldl_append]
    exact ih.act hact

theorem pop_cases (l : Ledger) : (l.queue = [] ∧ l.pop = l) ∨
    ∃ pre e post, l.queue = pre ++ e :: post ∧ (∀ g ∈ pre, ¬ e.2.WaitsFor g.2) ∧
      Rotation.Chosen (l.last.map UInt32.toNat) (Session.readyIds (l.queue.map Prod.snd))
        e.2.header.streamId.toNat ∧
      l.pop = { l with
        queue := pre ++ post, last := some e.2.header.streamId, popped := l.popped ++ [e] } := by
  unfold pop
  split
  case h_1 hn =>
    refine .inl ⟨?_, rfl⟩
    cases hq : l.queue with
    | nil => rfl
    | cons e rest =>
      have hin := Session.eligible_front e.2 (rest.map Prod.snd)
      simp only [Session.choose, Option.or_eq_none_iff, Session.minById_eq_none, hq,
        List.map_cons] at hn
      rw [hn.2] at hin
      cases hin
  case h_2 id i hc =>
    obtain ⟨pre, f, post, hf, rfl, rfl, hw⟩ := Session.choose_split hc
    obtain ⟨pre, rest, hq, rfl, hrest⟩ := List.map_eq_append_iff.mp hf
    obtain ⟨e, post, rfl, rfl, rfl⟩ := List.map_eq_cons_iff.mp hrest
    refine .inr ⟨pre, e, post, hq, fun g hg => hw g.2 (List.mem_map_of_mem hg),
      Session.choose_chosen hc, ?_⟩
    have herase : l.queue.eraseIdx (pre.map Prod.snd).length = pre ++ post := by
      rw [hq, List.length_map, List.eraseIdx_append_of_length_le le_rfl, Nat.sub_self]
      rfl
    have hget : l.queue[(pre.map Prod.snd).length]? = some e := by
      rw [hq, List.length_map, List.getElem?_append_right le_rfl, Nat.sub_self]
      rfl
    rw [herase, hget]
    rfl

theorem Keeps.pop (h : Keeps o l) :
    Keeps { o with queue := l.pop.queue.map Prod.snd, last := l.pop.last } l.pop := by
  rcases pop_cases l with ⟨-, hp⟩ | ⟨pre, e, post, hq, hw, -, hp⟩
  · rw [hp, h.queue, h.last]
    exact h
  · have hsub : (pre ++ post).Sublist l.queue := by
      rw [hq]
      exact .append_left (List.sublist_cons_self ..) _
    have hnew : ∀ b ∈ pre ++ post, e.2.WaitsFor b.2 → e.1 < b.1 := by
      intro b hb hwait
      have hsorted := h.sorted
      rw [hq, List.pairwise_append, List.pairwise_cons] at hsorted
      rcases List.mem_append.mp hb with hb | hb
      · exact absurd hwait (hw b hb)
      · exact hsorted.2.1.1 b hb
    rw [hp]
    refine h.remove hsub rfl rfl rfl rfl ?_ ?_ ?_
    · simp only [entries, hq, List.append_assoc]
      refine .append_left _ ?_
      refine (List.perm_append_comm_assoc [e] l.deleted (pre ++ post)).trans (.append_left _ ?_)
      rw [List.singleton_append]
      exact List.perm_middle.symm
    · refine List.pairwise_append.mpr ⟨h.order, List.pairwise_singleton .., fun a ha b hb => ?_⟩
      rw [List.mem_singleton.mp hb]
      exact h.ahead a ha e (by rw [hq]; simp)
    · intro a ha b hb
      rcases List.mem_append.mp ha with ha | ha
      · exact h.ahead a ha b (hsub.subset hb)
      · rw [List.mem_singleton.mp ha]
        exact hnew b hb

theorem ready_unique {pre pre' post post' : List Entry} {e e' : Entry}
    (hq : pre ++ e :: post = pre' ++ e' :: post') (hw : ∀ g ∈ pre, ¬ e.2.WaitsFor g.2)
    (hw' : ∀ g ∈ pre', ¬ e'.2.WaitsFor g.2)
    (hid : e.2.header.streamId = e'.2.header.streamId) : pre = pre' ∧ e = e' ∧ post = post' := by
  rcases List.append_eq_append_iff.mp hq with ⟨mid, hp, hc⟩ | ⟨mid, hp, hc⟩
  · cases mid with
    | nil =>
      simp only [List.append_nil, List.nil_append, List.cons.injEq] at hp hc
      exact ⟨hp.symm, hc.1, hc.2⟩
    | cons g mid =>
      simp only [List.cons_append, List.cons.injEq] at hc
      exact absurd (.inl (hc.1 ▸ hid.symm)) (hw' g (by rw [hp]; simp))
  · cases mid with
    | nil =>
      simp only [List.append_nil, List.nil_append, List.cons.injEq] at hp hc
      exact ⟨hp, hc.1.symm, hc.2.symm⟩
    | cons g mid =>
      simp only [List.cons_append, List.cons.injEq] at hc
      exact absurd (.inl (hc.1 ▸ hid)) (hw g (by rw [hp]; simp))

def idCount : Nat := 2 ^ 32

def gapTo (last : Option UInt32) (e : Entry) : Nat :=
  Rotation.gap idCount (last.map UInt32.toNat) e.2.header.streamId.toNat

theorem gapTo_lt (last : Option UInt32) (e : Entry) : gapTo last e < idCount := by
  refine Rotation.gap_lt e.2.header.streamId.toNat_lt fun p hp => ?_
  obtain ⟨id, -, rfl⟩ := Option.mem_map.mp hp
  exact id.toNat_lt

/-- How many pops can pass before an entry behind `pre` leaves: a full round for each
entry before it, and the way of the pointer to the stream at the front. -/
def debt (last : Option UInt32) (pre : List Entry) (e : Entry) : Nat :=
  pre.length * idCount + gapTo last (pre.head?.getD e)

theorem debt_lt_of_shorter {pre pre' : List Entry} (e : Entry) (last last' : Option UInt32)
    (h : pre'.length < pre.length) : debt last' pre' e < debt last pre e := by
  have hg := gapTo_lt last' (pre'.head?.getD e)
  have hm : (pre'.length + 1) * idCount ≤ pre.length * idCount := Nat.mul_le_mul_right _ h
  rw [Nat.add_mul, Nat.one_mul] at hm
  rw [debt, debt]
  omega

theorem pop_wait {pre post : List Entry} {e : Entry} (hq : l.queue = pre ++ e :: post) :
    (l.pop.queue = pre ++ post ∧ l.pop.issued = l.issued) ∨
    ∃ c pre' post', l.pop.queue = pre' ++ e :: post' ∧ pre'.Sublist pre ∧
      l.pop.popped = l.popped ++ [c] ∧ l.pop.last = some c.2.header.streamId ∧
      debt l.pop.last pre' e < debt l.last pre e ∧
      ((∀ g ∈ pre, ¬ e.2.WaitsFor g.2) → gapTo l.pop.last e < gapTo l.last e) := by
  rcases pop_cases l with ⟨hn, -⟩ | ⟨pre₁, c, post₁, hc, hw, hchosen, hp⟩
  · rw [hq] at hn
    simp at hn
  have hsame : ∀ (pre₂ post₂ : List Entry) (x : Entry), l.queue = pre₂ ++ x :: post₂ →
      (∀ g ∈ pre₂, ¬ x.2.WaitsFor g.2) → pre₂ ≠ pre₁ →
      gapTo (some c.2.header.streamId) x < gapTo l.last x := by
    intro pre₂ post₂ x hx hwx hne
    refine Rotation.gap_decreases hchosen ?_ ?_ c.2.header.streamId.toNat_lt ?_
    · rw [hx, List.map_append, List.map_cons]
      refine Session.mem_readyIds fun g hg => ?_
      obtain ⟨k, hk, rfl⟩ := List.mem_map.mp hg
      exact hwx k hk
    · intro hid
      exact hne (ready_unique (hx.symm.trans hc) hwx hw (UInt32.toNat_inj.mp hid).symm).1
    · intro p hp
      obtain ⟨id, -, rfl⟩ := Option.mem_map.mp hp
      exact id.toNat_lt
  rw [hp]
  have hsplit := hc
  rw [hq] at hsplit
  rcases List.append_eq_append_iff.mp hsplit with ⟨mid, hpre, hrest⟩ | ⟨mid, hpre, hrest⟩
  · cases mid with
    | nil =>
      simp only [List.append_nil, List.nil_append, List.cons.injEq] at hpre hrest
      exact .inl ⟨by rw [hpre, hrest.2], rfl⟩
    | cons g mid =>
      -- The chosen entry is behind this one, so the front of the queue stays.
      simp only [List.cons_append, List.cons.injEq] at hrest
      obtain ⟨rfl, rfl⟩ := hrest
      have hne : pre₁ ≠ [] := by rw [hpre]; simp
      refine .inr ⟨c, pre, mid ++ post₁, by simp [hpre], List.Sublist.refl _, rfl, rfl, ?_, fun hw => ?_⟩
      · refine Nat.add_lt_add_left ?_ _
        cases pre with
        | nil => exact hsame [] _ e hq nofun hne.symm
        | cons x pre => exact hsame [] _ x hq nofun hne.symm
      · refine hsame pre _ e hq hw fun he => ?_
        rw [he] at hpre
        simp at hpre
  · cases mid with
    | nil =>
      simp only [List.append_nil, List.nil_append, List.cons.injEq] at hpre hrest
      exact .inl ⟨by rw [hpre, hrest.2], rfl⟩
    | cons g mid =>
      simp only [List.cons_append, List.cons.injEq] at hrest
      obtain ⟨rfl, rfl⟩ := hrest
      refine .inr ⟨c, pre₁ ++ mid, post, by simp, ?_, rfl, rfl, ?_, fun hw => ?_⟩
      · rw [hpre]
        exact .append_left (List.sublist_cons_self ..) _
      · refine debt_lt_of_shorter e _ _ ?_
        simp only [hpre, List.length_append, List.length_cons]
        omega
      · refine hsame pre _ e hq hw fun he => ?_
        rw [he] at hpre
        simp at hpre

theorem edit_wait {pre post : List Entry} {e : Entry} (hq : l.queue = pre ++ e :: post) (ed : Edit) :
    (l.edit ed).popped = l.popped ∧ (l.edit ed).last = l.last ∧ l.issued ≤ (l.edit ed).issued ∧
    (e ∉ (l.edit ed).queue ∨ ∃ pre' post', (l.edit ed).queue = pre' ++ e :: post' ∧
      pre'.Sublist pre ∧ debt l.last pre' e ≤ debt l.last pre e) := by
  cases ed with
  | push f =>
    refine ⟨rfl, rfl, Nat.le_succ _, .inr ⟨pre, post ++ [(l.issued, f)], ?_, List.Sublist.refl _, le_rfl⟩⟩
    simp [edit, hq]
  | clear => exact ⟨rfl, rfl, le_rfl, .inl nofun⟩
  | purge id =>
    refine ⟨rfl, rfl, le_rfl, ?_⟩
    by_cases hr : Session.retained id e.2 = true
    · refine .inr ⟨pre.filter fun e => Session.retained id e.2,
        post.filter fun e => Session.retained id e.2, ?_, List.filter_sublist, ?_⟩
      · simp [edit, hq, hr]
      · cases pre with
        | nil => exact le_rfl
        | cons g pre =>
          by_cases hg : Session.retained id g.2 = true
          · have hle : (pre.filter fun e => Session.retained id e.2).length * idCount ≤
                pre.length * idCount := Nat.mul_le_mul_right _ (List.length_filter_le ..)
            rw [List.filter_cons, if_pos hg, debt, debt]
            simp only [List.length_cons, List.head?_cons, Option.getD_some, Nat.add_mul]
            omega
          · rw [List.filter_cons, if_neg hg]
            refine (debt_lt_of_shorter e _ _ ?_).le
            have := List.length_filter_le (fun e : Entry => Session.retained id e.2) pre
            simp only [List.length_cons]
            omega
    · refine .inl fun hm => hr ?_
      simpa using (List.mem_filter.mp hm).2

/-- What has happened to an entry since the ledger `l₀`: it is gone, or the streams
chosen since then came ever closer to it. -/
def Since (l₀ : Ledger) (pre₀ : List Entry) (e : Entry) (l : Ledger) : Prop :=
  e.1 < l.issued ∧ (e ∉ l.queue ∨ ∃ pre post more, l.queue = pre ++ e :: post ∧
    l.popped = l₀.popped ++ more ∧ debt l.last pre e + more.length ≤ debt l₀.last pre₀ e ∧
    ((∀ g ∈ pre₀, ¬ e.2.WaitsFor g.2) → (∀ g ∈ pre, ¬ e.2.WaitsFor g.2) ∧
      (∀ c ∈ more, gapTo l.last e ≤ gapTo (some c.2.header.streamId) e ∧
        gapTo (some c.2.header.streamId) e < idCount - 1) ∧
      more.Pairwise fun c d =>
        gapTo (some d.2.header.streamId) e < gapTo (some c.2.header.streamId) e))

variable {l₀ : Ledger} {pre₀ : List Entry} {e : Entry}

theorem Since.start (h : Keeps o l₀) {post : List Entry} (hq : l₀.queue = pre₀ ++ e :: post) :
    Since l₀ pre₀ e l₀ := by
  refine ⟨h.number_lt (mem_entries_queue (by rw [hq]; simp)), .inr ⟨pre₀, post, [], hq, by simp, by simp,
    fun hw => ⟨hw, by simp, .nil⟩⟩⟩

theorem Since.edit (h : Since l₀ pre₀ e l) (ed : Edit) : Since l₀ pre₀ e (l.edit ed) := by
  obtain ⟨hlt, hgone | ⟨pre, post, more, hq, hm, hd, hr⟩⟩ := h
  · cases ed with
    | push f =>
      refine ⟨Nat.lt_succ_of_lt hlt, .inl fun hm => ?_⟩
      rcases List.mem_append.mp hm with hm | hm
      · exact hgone hm
      · rw [List.mem_singleton.mp hm] at hlt
        exact absurd hlt (lt_irrefl _)
    | purge id => exact ⟨hlt, .inl fun hm => hgone (List.mem_filter.mp hm).1⟩
    | clear => exact ⟨hlt, .inl nofun⟩
  · obtain ⟨hp, hl, hi, hgone | ⟨pre', post', hq', hsub, hd'⟩⟩ := edit_wait hq ed
    · exact ⟨hlt.trans_le hi, .inl hgone⟩
    · refine ⟨hlt.trans_le hi, .inr ⟨pre', post', more, hq', hp.trans hm, ?_, fun hw => ?_⟩⟩
      · rw [hl]
        omega
      · obtain ⟨hwait, hgap, hpair⟩ := hr hw
        rw [hl]
        exact ⟨fun g hg => hwait g (hsub.subset hg), hgap, hpair⟩

theorem Since.pop (hk : Keeps o l) (h : Since l₀ pre₀ e l) : Since l₀ pre₀ e l.pop := by
  obtain ⟨hlt, hgone | ⟨pre, post, more, hq, hm, hd, hr⟩⟩ := h
  · rcases pop_cases l with ⟨-, hp⟩ | ⟨pre, c, post, hc, -, -, hp⟩ <;> rw [hp]
    · exact ⟨hlt, .inl hgone⟩
    · refine ⟨hlt, .inl fun hm => hgone ?_⟩
      rw [hc]
      rcases List.mem_append.mp hm with hm | hm
      · exact List.mem_append_left _ hm
      · exact List.mem_append_right _ (List.mem_cons_of_mem _ hm)
  · rcases pop_wait hq with ⟨hp, hi⟩ | ⟨c, pre', post', hq', hsub, hp, hl, hdebt, hgap⟩
    · refine ⟨hi ▸ hlt, .inl ?_⟩
      have hsorted := hk.sorted
      rw [hq, List.pairwise_append, List.pairwise_cons] at hsorted
      rw [hp, List.mem_append, not_or]
      exact ⟨fun hmem => lt_irrefl _ (hsorted.2.2 e hmem e List.mem_cons_self),
        fun hmem => lt_irrefl _ (hsorted.2.1.1 e hmem)⟩
    · have hi : l.pop.issued = l.issued := by
        unfold Ledger.pop
        split <;> rfl
      refine ⟨hi ▸ hlt, .inr ⟨pre', post', more ++ [c], hq', by rw [hp, hm, List.append_assoc], ?_,
        fun hw => ?_⟩⟩
      · rw [List.length_append, List.length_singleton]
        omega
      · obtain ⟨hwait, hgaps, hpair⟩ := hr hw
        have hdec := hgap hwait
        have hmax := gapTo_lt l.last e
        refine ⟨fun g hg => hwait g (hsub.subset hg), fun d hd => ?_, ?_⟩
        · rcases List.mem_append.mp hd with hd | hd
          · exact ⟨(hdec.trans_le (hgaps d hd).1).le, (hgaps d hd).2⟩
          · rw [List.mem_singleton.mp hd, ← hl]
            exact ⟨le_rfl, by omega⟩
        · refine List.pairwise_append.mpr ⟨hpair, List.pairwise_singleton .., fun d hd x hx => ?_⟩
          rw [List.mem_singleton.mp hx, ← hl]
          exact hdec.trans_le (hgaps d hd).1

inductive Step : Party × Ledger → Party × Ledger → Prop
  | call {p : Party} {l : Ledger} {c : Call} {edits : List Edit} (he : p.Enabled c)
      (hc : c.plain = true)
      (ha : Output.Acts p.session.output edits (p.run c).session.output) :
      Step (p, l) (p.run c, edits.foldl edit l)
  | aside {p : Party} {l : Ledger} {c : Call} (hc : c.plain = false) (hp : c ≠ .popOutbound) :
      Step (p, l) (p.run c, l)
  | pop {p : Party} {l : Ledger} : Step (p, l) (p.run .popOutbound, l.pop)

theorem popOutbound_eq {p : Party} (h : Keeps p.session.output l) :
    l.pop.popped.map Prod.snd = l.popped.map Prod.snd ++ p.session.popOutbound.1.toList ∧
      (p.run .popOutbound).session.output =
        { p.session.output with queue := l.pop.queue.map Prod.snd, last := l.pop.last } := by
  have hq : l.queue.map Prod.snd = p.session.outbound := h.queue
  have hl : l.last = p.session.lastOutput := h.last
  simp only [Party.run, Session.popOutbound, Session.nextOutput_eq, pop, hq, hl]
  split
  · refine ⟨by simp, ?_⟩
    rw [hq, hl]
    rfl
  · rename_i i _
    have herase : (l.queue.map Prod.snd).eraseIdx i = (l.queue.eraseIdx i).map Prod.snd := by
      simp only [List.eraseIdx_eq_take_drop_succ, List.map_append, List.map_take, List.map_drop]
    simp only [List.map_append, Session.output, ← hq, List.getElem?_map, herase, and_true]
    cases l.queue[i]? <;> rfl

theorem Keeps.aside {p : Party} (h : Keeps p.session.output l) {c : Call} (hc : c.plain = false)
    (hp : c ≠ .popOutbound) : Keeps (p.run c).session.output l := by
  have hkeep : ∀ {resources : Resources}, Keeps { p.session.output with resources } l := by
    intro resources
    exact ⟨h.queue, h.last, h.sorted, h.account, h.order, h.ahead, h.opens, h.greatest⟩
  cases c with
  | popEvent =>
    simp only [Party.run, Session.popEvent]
    split <;> exact h
  | popStreamEvent owner =>
    simp only [Party.run, Session.popStreamEvent]
    split <;> exact h
  | popOutbound => exact absurd rfl hp
  | budget used => exact hkeep
  | _ => cases hc

theorem Keeps.step {x y : Party × Ledger} (hs : x.1.session.Sound)
    (h : Keeps x.1.session.output x.2) (hstep : Step x y) :
    y.1.session.Sound ∧ Keeps y.1.session.output y.2 := by
  cases hstep with
  | call he hc ha => exact ⟨(Party.run_free hs _).1, h.acts ha⟩
  | aside hc hp => exact ⟨(Party.run_free hs _).1, h.aside hc hp⟩
  | pop => exact ⟨(Party.run_free hs _).1, (popOutbound_eq h).2 ▸ h.pop⟩

theorem Keeps.steps {x y : Party × Ledger} (hs : x.1.session.Sound)
    (h : Keeps x.1.session.output x.2) (hsteps : ReflTransGen Step x y) :
    y.1.session.Sound ∧ Keeps y.1.session.output y.2 := by
  induction hsteps with
  | refl => exact ⟨hs, h⟩
  | tail _ hstep ih => exact ih.2.step ih.1 hstep

theorem Since.foldl_edit (h : Since l₀ pre₀ e l) (edits : List Edit) :
    Since l₀ pre₀ e (edits.foldl Ledger.edit l) := by
  induction edits generalizing l with
  | nil => exact h
  | cons ed edits ih => exact ih (h.edit ed)

theorem Since.steps {x y : Party × Ledger} (hs : x.1.session.Sound)
    (hk : Keeps x.1.session.output x.2) {post : List Entry} (hq : x.2.queue = pre₀ ++ e :: post)
    (hsteps : ReflTransGen Step x y) : Since x.2 pre₀ e y.2 := by
  induction hsteps with
  | refl => exact .start hk hq
  | @tail y z hpast hstep ih =>
    have hy := (hk.steps hs hpast).2
    cases hstep with
    | call he hc ha => exact ih.foldl_edit _
    | aside => exact ih
    | pop => exact .pop hy ih

theorem keeps_fresh {role : ConnectionRole} {s : Session} (h : s.Fresh role) :
    Keeps s.output {} := by
  obtain ⟨handle, mine, peers, resources, rfl⟩ := h
  exact ⟨rfl, rfl, .nil, .nil, .nil, nofun, nofun, nofun⟩

theorem recorded {role : ConnectionRole} {s : Session} {clock : Instant} (hs : s.Fresh role)
    {p : Party} (hp : ReflTransGen Party.Step (Party.start s clock) p) :
    ∃ l, ReflTransGen Step (Party.start s clock, {}) (p, l) := by
  induction hp with
  | refl => exact ⟨{}, .refl⟩
  | @tail p q _ hstep ih =>
    obtain ⟨l, hl⟩ := ih
    obtain ⟨c, he, rfl⟩ := hstep
    have hsound := (Keeps.steps hs.sound.1 (keeps_fresh hs) hl).1
    by_cases hc : c.plain = true
    · obtain ⟨edits, ha⟩ := (Party.run_effect hsound hc).acts
      exact ⟨_, hl.tail (.call he hc ha)⟩
    · by_cases hpop : c = .popOutbound
      · subst hpop
        exact ⟨_, hl.tail .pop⟩
      · exact ⟨l, hl.tail (.aside (Bool.eq_false_iff.mpr hc) hpop)⟩

end Ledger

/-- The scheduler over every run of a session. It stops only when nothing is queued;
each admitted frame is handed out or deleted once or still queued; streams, OPENs and
the GOAWAY keep their order; and while the first frame of a stream may leave, every
other stream is chosen at most once before it. -/
theorem scheduler_order_and_bypass {role : ConnectionRole} {s : Session} {clock : Instant}
    (hs : s.Fresh role) :
    (∀ p, ReflTransGen Party.Step (Party.start s clock) p →
      ∃ l, ReflTransGen Ledger.Step (Party.start s clock, {}) (p, l)) ∧
    ∀ p l, ReflTransGen Ledger.Step (Party.start s clock, {}) (p, l) →
      l.queue.map Prod.snd = p.session.outbound ∧
      (p.session.popOutbound.1 = none ↔ p.session.outbound = []) ∧
      l.pop.popped.map Prod.snd = l.popped.map Prod.snd ++ p.session.popOutbound.1.toList ∧
      ((l.popped ++ l.deleted ++ l.queue).map Prod.fst).Perm (List.range l.issued) ∧
      (l.popped.Pairwise fun a b =>
        a.2.header.streamId = b.2.header.streamId → a.1 < b.1) ∧
      (l.popped.Pairwise fun a b => a.2.header.frameType = .open_ → b.2.header.frameType = .open_ →
        a.2.header.streamId < b.2.header.streamId) ∧
      (l.popped.Pairwise fun a b => a.2.header.frameType = .goAway →
        b.2.header.frameType = .open_ → a.1 < b.1) ∧
      (∀ a ∈ l.popped, a.2.header.frameType = .goAway → ∀ b ∈ l.queue,
        b.2.header.frameType = .open_ → a.1 < b.1) ∧
      ∀ pre e post p' l', l.queue = pre ++ e :: post →
        ReflTransGen Ledger.Step (p, l) (p', l') → e ∈ l'.queue →
        ∃ more, l'.popped = l.popped ++ more ∧ more.length < (pre.length + 1) * 2 ^ 32 ∧
          ((e.2.header.streamId, pre.length) ∈ Session.eligible
              (p.session.outbound.findIdx? fun f => f.header.frameType == .open_) 0 []
              p.session.outbound →
            (more.map fun c => c.2.header.streamId).Nodup ∧
              e.2.header.streamId ∉ more.map fun c => c.2.header.streamId) := by
  refine ⟨fun p => Ledger.recorded hs, fun p l hrun => ?_⟩
  obtain ⟨hsound, hk⟩ := Ledger.Keeps.steps hs.sound.1 (Ledger.keeps_fresh hs) hrun
  refine ⟨hk.queue, Session.nextOutput_eq_none p.session, (Ledger.popOutbound_eq hk).1, hk.account,
    hk.order.imp fun h hid => h (.inl hid), ?_,
    hk.order.imp fun h ht ho => h (.inr ⟨.inr ht, ho⟩),
    fun a ha ht b hb ho => hk.ahead a ha b hb (.inr ⟨.inr ht, ho⟩), ?_⟩
  · refine List.Pairwise.imp_of_mem (fun {a b} ha hb h hoa hob => ?_) hk.order
    exact hk.opens a (Ledger.mem_entries_popped ha) b (Ledger.mem_entries_popped hb) hoa hob
      (h (.inr ⟨.inl hoa, hob⟩))
  · intro pre e post p' l' hq hsteps hin
    obtain ⟨-, hgone | ⟨pre', post', more, -, hm, hd, hr⟩⟩ :=
      Ledger.Since.steps (x := (p, l)) hsound hk hq hsteps
    · exact absurd hin hgone
    refine ⟨more, hm, ?_, fun hready => ?_⟩
    · have hg := Ledger.gapTo_lt l.last (pre.head?.getD e)
      rw [Ledger.debt, Ledger.debt] at hd
      rw [Nat.add_mul, Nat.one_mul]
      simp only [Ledger.idCount] at hd hg
      omega
    · have hout : p.session.outbound = pre.map Prod.snd ++ e.2 :: post.map Prod.snd := by
        have hmap : l.queue.map Prod.snd = p.session.outbound := hk.queue
        rw [← hmap, hq, List.map_append, List.map_cons]
      obtain ⟨pre₁, f, post₁, hf, hlen, -, hw⟩ := Session.mem_eligible_iff.mp hready
      rw [hout] at hf
      obtain ⟨rfl, he⟩ := List.append_inj hf (by rw [List.length_map, hlen])
      obtain ⟨rfl, -⟩ := List.cons.inj he
      obtain ⟨-, hgaps, hpair⟩ := hr fun g hg => hw g.2 (List.mem_map_of_mem hg)
      obtain ⟨hnodup, hnot⟩ : (more.map fun c : Entry => c.2.header.streamId.toNat).Nodup ∧
          e.2.header.streamId.toNat ∉ more.map fun c : Entry => c.2.header.streamId.toNat :=
        Rotation.nodup_of_gaps (N := Ledger.idCount) e.2.header.streamId.toNat_lt
          (List.forall_mem_map.mpr fun c hc => (hgaps c hc).2) (List.pairwise_map.mpr hpair)
      rw [show (more.map fun c : Entry => c.2.header.streamId.toNat) =
        (more.map fun c => c.2.header.streamId).map UInt32.toNat by simp] at hnodup hnot
      exact ⟨List.Nodup.of_map _ hnodup, fun hm => hnot (List.mem_map_of_mem hm)⟩

def Party.handed : Nat → Party → List WireFrame
  | 0, _ => []
  | n + 1, p => p.session.popOutbound.1.toList ++ handed n (p.run .popOutbound)

/-- Two streams, one with two frames to send and one with one. -/
def sampleCalls : List Call :=
  [.open_ .sample ⟨0⟩, .open_ .sample ⟨0⟩, .send ⟨0⟩ .sample [7], .send ⟨0⟩ .sample [8],
    .send ⟨0⟩ ⟨⟨0⟩, ⟨0⟩, 3, by decide⟩ [9]]

def sampleSends : Party :=
  sampleCalls.foldl Party.run (Party.start Link.sample.initiator.session 0)

theorem scheduler_order_and_bypass_sample : ∃ l l',
    ReflTransGen Ledger.Step (Party.start Link.sample.initiator.session 0, {}) (sampleSends, l) ∧
    ReflTransGen Ledger.Step (sampleSends, l) ((Party.run · .popOutbound)^[5] sampleSends, l') ∧
    l'.popped.map Prod.snd = l.popped.map Prod.snd ++ sampleSends.handed 5 ∧
    ((sampleSends.handed 5).map fun f => (f.header.frameType, f.header.streamId)) =
      [(.open_, 1), (.open_, 3), (.data, 1), (.data, 3), (.data, 1)] ∧
    (l'.popped.Pairwise fun a b => a.2.header.streamId = b.2.header.streamId → a.1 < b.1) := by
  have hfresh : Link.sample.initiator.session.Fresh .initiator := ⟨_, _, _, _, rfl⟩
  obtain ⟨hexists, hall⟩ :=
    @scheduler_order_and_bypass .initiator Link.sample.initiator.session 0 hfresh
  have hpops : ∀ n p l,
      ReflTransGen Ledger.Step (Party.start Link.sample.initiator.session 0, {}) (p, l) → ∃ l',
        ReflTransGen Ledger.Step (p, l) ((Party.run · .popOutbound)^[n] p, l') ∧
        l'.popped.map Prod.snd = l.popped.map Prod.snd ++ p.handed n := by
    intro n
    induction n with
    | zero => exact fun p l _ => ⟨l, .refl, (List.append_nil _).symm⟩
    | succ n ih =>
      intro p l hl
      obtain ⟨l', hl', hpopped⟩ := ih _ l.pop (hl.tail .pop)
      refine ⟨l', .head .pop hl', ?_⟩
      rw [hpopped, (hall p l hl).2.2.1, List.append_assoc]
      rfl
  have hcalls : ∀ c ∈ sampleCalls, ∀ p : Party, p.Enabled c := by simp [sampleCalls, Party.Enabled]
  obtain ⟨l, hl⟩ := hexists sampleSends (Party.steps_calls _ sampleCalls hcalls)
  obtain ⟨l', hl', hpopped⟩ := hpops 5 sampleSends l hl
  exact ⟨l, l', hl, hl', hpopped, by decide +kernel, (hall _ l' (hl.trans hl')).2.2.2.2.1⟩

end TalkSphere
