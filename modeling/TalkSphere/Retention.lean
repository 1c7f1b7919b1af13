import Mathlib.Data.Set.Card

/-! Retention by weak references. An owner numbers the values it hands out and keeps a list of
their numbers; what nobody refers to any more is dropped from the list the next time the owner
looks. -/

namespace Retention

/-- How many references callers have to each value. -/
abbrev Held := Nat → Nat

/-- References are copied and dropped, but none comes from nothing. -/
def Onward (h h' : Held) : Prop := ∀ r, h r = 0 → h' r = 0

/-- A reference is handed out. -/
def Held.receive (h : Held) (r : Nat) : Held := Function.update h r (h r + 1)

theorem Onward.trans {a b c : Held} (h : Onward a b) (h' : Onward b c) : Onward a c :=
  fun r hr => h' r (h r hr)

theorem receive_pos {h : Held} {r x : Nat} (hx : 0 < h.receive r x) : x = r ∨ 0 < h x := by
  by_cases heq : x = r
  · exact .inl heq
  · rw [Held.receive, Function.update_of_ne heq] at hx
    exact .inr hx

theorem encard_le {s : Set Nat} {pins : List Nat} (h : ∀ r ∈ s, r ∈ pins) :
    s.encard ≤ pins.length := by
  have hsub : s ⊆ (pins.toFinset : Set Nat) := fun r hr => by simpa using h r hr
  calc s.encard ≤ (pins.toFinset : Set Nat).encard := Set.encard_le_encard hsub
    _ = pins.toFinset.card := Set.encard_coe_eq_coe_finsetCard _
    _ ≤ pins.length := by exact_mod_cast pins.toFinset_card_le

theorem encard_le_of_room {s : Set Nat} {pins : List Nat} {new limit : Nat} {gone : Option Nat}
    (hroom : pins.length - gone.toList.length < limit) (hgone : ∀ c, gone = some c → c ∈ pins)
    (h : ∀ r ∈ s, r = new ∨ r ∈ pins ∧ gone ≠ some r) : s.encard ≤ limit := by
  cases gone with
  | none =>
    have hle : s.encard ≤ (new :: pins).length := encard_le fun r hr => by
      obtain rfl | ⟨hin, -⟩ := h r hr
      · exact List.mem_cons_self
      · exact List.mem_cons_of_mem _ hin
    refine hle.trans ?_
    rw [List.length_cons]
    simp only [Option.toList_none, List.length_nil] at hroom
    exact_mod_cast (by omega : pins.length + 1 ≤ limit)
  | some c =>
    have hle : s.encard ≤ (new :: pins.erase c).length := encard_le fun r hr => by
      obtain rfl | ⟨hin, hne⟩ := h r hr
      · exact List.mem_cons_self
      · refine List.mem_cons_of_mem _ ((List.mem_erase_of_ne fun heq => hne ?_).mpr hin)
        rw [heq]
    refine hle.trans ?_
    rw [List.length_cons, List.length_erase_of_mem (hgone c rfl)]
    simp only [Option.toList_some, List.length_singleton] at hroom
    have hpos := List.length_pos_of_mem (hgone c rfl)
    exact_mod_cast (by omega : pins.length - 1 + 1 ≤ limit)

/-! An owner with references of its own. -/

def Alive (own : Held) (held : Held) : Set Nat := {r | 0 < own r + held r}

/-- Every value that is alive is listed, and there are not too many of them. -/
structure Tracked (own held : Held) (pins : List Nat) (limit : Nat) : Prop where
  listed : ∀ r ∈ Alive own held, r ∈ pins
  bounded : (Alive own held).encard ≤ limit

theorem alive_iff {own held : Held} {r : Nat} : r ∈ Alive own held ↔ 0 < own r ∨ 0 < held r := by
  rw [Alive, Set.mem_ofPred_eq]
  omega

theorem Onward.pos {h h' : Held} (hon : Onward h h') {r : Nat} (hr : 0 < h' r) : 0 < h r := by
  by_contra hzero
  exact absurd (hon r (Nat.eq_zero_of_not_pos hzero)) (Nat.ne_of_gt hr)

theorem mem_retained {own held : Held} {pins : List Nat} {r : Nat} (hr : r ∈ pins)
    (halive : r ∈ Alive own held) : r ∈ pins.filter fun r => 0 < own r + held r :=
  List.mem_filter.mpr ⟨hr, decide_eq_true halive⟩

variable {own own' held held' : Held} {pins pins' : List Nat} {limit : Nat}

theorem tracked_empty (h : ∀ r, ¬ 0 < own r) : Tracked own (fun _ => 0) [] limit := by
  have hnone : Alive own (fun _ => 0) = ∅ := Set.eq_empty_iff_forall_notMem.mpr fun r hr =>
    (alive_iff.mp hr).elim (h r) (Nat.lt_irrefl 0)
  constructor
  case listed => exact fun r hr => absurd (hnone ▸ hr) (Set.notMem_empty r)
  case bounded => simp [hnone]

theorem Tracked.shrink (h : Tracked own held pins limit)
    (hsub : ∀ r ∈ Alive own' held', r ∈ Alive own held)
    (hpins : ∀ r ∈ pins, r ∈ Alive own' held' → r ∈ pins') : Tracked own' held' pins' limit where
  listed r hr := hpins r (h.listed r (hsub r hr)) hr
  bounded := (Set.encard_le_encard hsub).trans h.bounded

theorem Tracked.onward (h : Tracked own held pins limit) (hon : Onward held held')
    (hown : ∀ r, 0 < own' r → 0 < own r) : Tracked own' held' pins limit := by
  apply h.shrink
  · intro r hr
    exact alive_iff.mpr ((alive_iff.mp hr).imp (hown r) hon.pos)
  · exact fun r hpin _ => hpin

theorem Tracked.receive (h : Tracked own held pins limit) {new : Nat} (hnew : 0 < own new) :
    Tracked own (held.receive new) pins limit := by
  apply h.shrink
  · intro r hr
    obtain hown | hheld := alive_iff.mp hr
    · exact alive_iff.mpr (.inl hown)
    · obtain rfl | hheld := receive_pos hheld
      · exact alive_iff.mpr (.inl hnew)
      · exact alive_iff.mpr (.inr hheld)
  · exact fun r hpin _ => hpin

theorem tracked_of_room {new : Nat} {gone : Option Nat}
    (hroom : pins.length - gone.toList.length < limit) (hgone : ∀ c, gone = some c → c ∈ pins)
    (h : ∀ r ∈ Alive own held, r = new ∨ r ∈ pins ∧ gone ≠ some r) :
    Tracked own held (pins ++ [new]) limit where
  listed r hr := by
    obtain rfl | ⟨hin, -⟩ := h r hr
    · exact List.mem_append_right _ List.mem_cons_self
    · exact List.mem_append_left _ hin
  bounded := encard_le_of_room hroom hgone h

end Retention
