import TalkSphere.Header

/-! Constant-space stream numbering of one connection. Each endpoint allocates
its own parity in increasing order and accepts exactly the next id of the other. -/

namespace TalkSphere

inductive IdError
  | exhausted
  | unexpected
  deriving DecidableEq, Repr

structure StreamIds where
  localOdd : Bool
  nextLocal : Option UInt32
  nextRemote : Option UInt32
  greatestLocal : UInt32
  greatestRemote : UInt32
  deriving DecidableEq, Repr

def checkedAddTwo (id : UInt32) : Option UInt32 :=
  if id.toNat + 2 < 2 ^ 32 then some (id + 2) else none

namespace StreamIds

def new (role : ConnectionRole) : StreamIds :=
  let localOdd := role == .initiator
  { localOdd
    nextLocal := some (if localOdd then 1 else 2)
    nextRemote := some (if localOdd then 2 else 1)
    greatestLocal := 0
    greatestRemote := 0 }

def allocate (ids : StreamIds) : Except IdError UInt32 × StreamIds :=
  match ids.nextLocal with
  | none => (.error .exhausted, ids)
  | some id => (.ok id, { ids with nextLocal := checkedAddTwo id, greatestLocal := id })

def accept (ids : StreamIds) (id : UInt32) : Except IdError Unit × StreamIds :=
  if ids.nextRemote ≠ some id then (.error .unexpected, ids)
  else (.ok (), { ids with nextRemote := checkedAddTwo id, greatestRemote := id })

def isLocal (ids : StreamIds) (id : UInt32) : Bool :=
  id != 0 && (id % 2 == 1) == ids.localOdd

def wasCreated (ids : StreamIds) (id : UInt32) : Bool :=
  id != 0 && id ≤ (if ids.isLocal id then ids.greatestLocal else ids.greatestRemote)

def ofParity (odd : Bool) (id : UInt32) : Bool := id != 0 && (id % 2 == 1) == odd

def following (odd : Bool) (greatest : UInt32) : Option UInt32 :=
  if greatest = 0 then some (if odd then 1 else 2) else checkedAddTwo greatest

structure Valid (ids : StreamIds) : Prop where
  next_local : ids.nextLocal = following ids.localOdd ids.greatestLocal
  next_remote : ids.nextRemote = following (!ids.localOdd) ids.greatestRemote
  local_parity : ids.greatestLocal = 0 ∨ ofParity ids.localOdd ids.greatestLocal = true
  remote_parity : ids.greatestRemote = 0 ∨ ofParity (!ids.localOdd) ids.greatestRemote = true

theorem isLocal_eq (ids : StreamIds) (id : UInt32) : ids.isLocal id = ofParity ids.localOdd id := rfl

theorem ofParity_not {odd : Bool} {id : UInt32} :
    ofParity (!odd) id = true ↔ id ≠ 0 ∧ ofParity odd id = false := by
  cases odd <;> simp [ofParity] <;> grind

theorem ofParity_iff {odd : Bool} {id : UInt32} :
    ofParity odd id = true ↔ id.toNat ≠ 0 ∧ id.toNat % 2 = odd.toNat := by
  have h0 : id = 0 ↔ id.toNat = 0 := UInt32.toNat_inj.symm
  have h1 : id % 2 = 1 ↔ id.toNat % 2 = 1 := by
    rw [← UInt32.toNat_inj, UInt32.toNat_mod]
    rfl
  cases odd <;> simp [ofParity, h0, h1]

theorem checkedAddTwo_eq_some {id next : UInt32} (h : checkedAddTwo id = some next) :
    next.toNat = id.toNat + 2 := by
  unfold checkedAddTwo at h
  split at h
  case isTrue hlt =>
    cases h
    rw [UInt32.toNat_add]
    exact Nat.mod_eq_of_lt hlt
  case isFalse => cases h

theorem following_eq_some {odd : Bool} {greatest id : UInt32}
    (hg : greatest = 0 ∨ ofParity odd greatest = true) (h : following odd greatest = some id) :
    ofParity odd id = true ∧ greatest < id ∧
      ∀ j, ofParity odd j = true → greatest < j → id ≤ j := by
  simp only [ofParity_iff, UInt32.lt_iff_toNat_lt, UInt32.le_iff_toNat_le] at hg ⊢
  unfold following at h
  split at h
  case isTrue h0 =>
    subst h0
    cases odd <;> cases h <;> simp <;> omega
  case isFalse h0 =>
    have hn := checkedAddTwo_eq_some h
    have hp := hg.resolve_left h0
    refine ⟨by omega, by omega, fun j hj hlt => by omega⟩

theorem new_valid (role : ConnectionRole) : (new role).Valid := by
  cases role <;> exact ⟨rfl, rfl, .inl rfl, .inl rfl⟩

theorem allocate_ok {ids ids' : StreamIds} {id : UInt32} (h : ids.allocate = (.ok id, ids')) :
    ids.nextLocal = some id ∧
      ids' = { ids with nextLocal := checkedAddTwo id, greatestLocal := id } := by
  unfold allocate at h
  split at h
  case h_1 => cases h
  case h_2 hn =>
    cases h
    exact ⟨hn, rfl⟩

theorem accept_ok {ids ids' : StreamIds} {id : UInt32} (h : ids.accept id = (.ok (), ids')) :
    ids.nextRemote = some id ∧
      ids' = { ids with nextRemote := checkedAddTwo id, greatestRemote := id } := by
  unfold accept at h
  split at h
  case isTrue => cases h
  case isFalse hn =>
    cases h
    exact ⟨not_not.mp hn, rfl⟩

theorem Valid.allocate {ids ids' : StreamIds} {id : UInt32} (hv : ids.Valid)
    (h : ids.allocate = (.ok id, ids')) : ids'.Valid := by
  obtain ⟨hn, rfl⟩ := allocate_ok h
  obtain ⟨hp, -, -⟩ := following_eq_some hv.local_parity (hv.next_local ▸ hn)
  have h0 : id ≠ 0 := fun h0 => by simp [h0, ofParity] at hp
  exact ⟨by simp [following, h0], hv.next_remote, .inr hp, hv.remote_parity⟩

theorem Valid.accept {ids ids' : StreamIds} {id : UInt32} (hv : ids.Valid)
    (h : ids.accept id = (.ok (), ids')) : ids'.Valid := by
  obtain ⟨hn, rfl⟩ := accept_ok h
  obtain ⟨hp, -, -⟩ := following_eq_some hv.remote_parity (hv.next_remote ▸ hn)
  have h0 : id ≠ 0 := fun h0 => by simp [h0, ofParity] at hp
  exact ⟨hv.next_local, by simp [following, h0], hv.local_parity, .inr hp⟩

theorem le_iff_of_following {odd : Bool} {greatest id j : UInt32}
    (hg : greatest = 0 ∨ ofParity odd greatest = true) (h : following odd greatest = some id)
    (hj : ofParity odd j = true) : j ≤ id ↔ j ≤ greatest ∨ j = id := by
  obtain ⟨-, hlt, hleast⟩ := following_eq_some hg h
  have hl := hleast j hj
  rw [UInt32.lt_iff_toNat_lt] at hlt hl
  rw [UInt32.le_iff_toNat_le] at hl ⊢
  rw [UInt32.le_iff_toNat_le, ← UInt32.toNat_inj]
  omega

theorem wasCreated_iff {ids : StreamIds} {id : UInt32} : ids.wasCreated id = true ↔
    (ofParity ids.localOdd id = true ∧ id ≤ ids.greatestLocal) ∨
    (ofParity (!ids.localOdd) id = true ∧ id ≤ ids.greatestRemote) := by
  rw [ofParity_not]
  by_cases h0 : id = 0
  · simp [wasCreated, h0, ofParity]
  · cases hp : ofParity ids.localOdd id <;> simp [wasCreated, h0, isLocal_eq, hp]

theorem wasCreated_allocate {ids ids' : StreamIds} {id : UInt32} (hv : ids.Valid)
    (h : ids.allocate = (.ok id, ids')) (j : UInt32) :
    ids'.wasCreated j = true ↔ ids.wasCreated j = true ∨ j = id := by
  obtain ⟨hn, rfl⟩ := allocate_ok h
  have hf := hv.next_local ▸ hn
  obtain ⟨hp, -, -⟩ := following_eq_some hv.local_parity hf
  simp only [wasCreated_iff]
  by_cases hj : ofParity ids.localOdd j = true
  · simp only [hj, le_iff_of_following hv.local_parity hf hj, true_and]
    tauto
  · have hne : j ≠ id := fun he => hj (he ▸ hp)
    simp [hj, hne]

theorem wasCreated_accept {ids ids' : StreamIds} {id : UInt32} (hv : ids.Valid)
    (h : ids.accept id = (.ok (), ids')) (j : UInt32) :
    ids'.wasCreated j = true ↔ ids.wasCreated j = true ∨ j = id := by
  obtain ⟨hn, rfl⟩ := accept_ok h
  have hf := hv.next_remote ▸ hn
  obtain ⟨hp, -, -⟩ := following_eq_some hv.remote_parity hf
  simp only [wasCreated_iff]
  by_cases hj : ofParity (!ids.localOdd) j = true
  · simp only [hj, le_iff_of_following hv.remote_parity hf hj, true_and]
    tauto
  · have hne : j ≠ id := fun he => hj (he ▸ hp)
    simp [hj, hne]

theorem not_wasCreated_of_following {ids : StreamIds} {id : UInt32}
    (hp : ofParity ids.localOdd id = true ∧ ids.greatestLocal < id ∨
      ofParity (!ids.localOdd) id = true ∧ ids.greatestRemote < id) :
    ids.wasCreated id = false := by
  rw [← Bool.not_eq_true, wasCreated_iff]
  rcases hp with ⟨hp, hlt⟩ | ⟨hp, hlt⟩
  · have hn : ofParity (!ids.localOdd) id ≠ true := fun h => by
      rw [ofParity_not, hp] at h
      simp at h
    rintro (⟨-, hle⟩ | ⟨hq, -⟩)
    · exact absurd hlt (UInt32.not_lt.mpr hle)
    · exact hn hq
  · have hn : ofParity ids.localOdd id ≠ true := by
      rw [ofParity_not] at hp
      simp [hp.2]
    rintro (⟨hq, -⟩ | ⟨-, hle⟩)
    · exact hn hq
    · exact absurd hlt (UInt32.not_lt.mpr hle)

theorem allocate_fresh {ids ids' : StreamIds} {id : UInt32} (hv : ids.Valid)
    (h : ids.allocate = (.ok id, ids')) : ids.wasCreated id = false := by
  have hf := hv.next_local ▸ (allocate_ok h).1
  obtain ⟨hp, hlt, -⟩ := following_eq_some hv.local_parity hf
  exact not_wasCreated_of_following (.inl ⟨hp, hlt⟩)

theorem accept_fresh {ids ids' : StreamIds} {id : UInt32} (hv : ids.Valid)
    (h : ids.accept id = (.ok (), ids')) : ids.wasCreated id = false := by
  have hf := hv.next_remote ▸ (accept_ok h).1
  obtain ⟨hp, hlt, -⟩ := following_eq_some hv.remote_parity hf
  exact not_wasCreated_of_following (.inr ⟨hp, hlt⟩)

end StreamIds

end TalkSphere
