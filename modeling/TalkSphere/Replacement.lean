import Mathlib.Order.Nat
import TalkSphere.Durable

/-! Replacing a file by writing another one and renaming it, and the history of such
replacements: what a name may hold after any of them was interrupted. -/

namespace Durable

variable {ν ε ρ : Type}

/-- The errors of a replacement; the one after the renaming is unlike those before it. -/
structure Errors (ε : Type) where
  create : Errno → ε
  check : Errno → ε
  write : ε
  sync : ε
  rename : Errno → ε
  directory : ε
  before : ∀ e, (∃ x, create x = e) ∨ (∃ x, check x = e) ∨ write = e ∨ sync = e ∨
    (∃ x, rename x = e) → e ≠ directory

/-- Writing the staged file and giving it its name. -/
def fill [DecidableEq ν] (staging target : ν) (replace : Bool) (errors : Errors ε)
    (bytes : List UInt8) (file : Nat) : Prog ν ε Unit := do
  orFail errors.check (← inspect)
  orFail (fun _ => errors.write) (← writeAll file bytes)
  orFail (fun _ => errors.sync) (← syncFile file)
  orFail errors.rename (← rename staging target replace)

def replaceFile [DecidableEq ν] (staging target : ν) (replace : Bool) (errors : Errors ε)
    (bytes : List UInt8) : Prog ν ε Unit := do
  let file ← orFail errors.create (← createNew staging)
  guarded (fill staging target replace errors bytes file) (unlink staging)
  orFail (fun _ => errors.directory) (← syncDirectory)

/-! What a replacement does to the names. -/

/-- What is there may stay. -/
def Alive (d : Disk ν) : Prop := ∀ name, d.entries name ∈ d.survivors name

/-- Nothing has happened to a name, except that less may be left of its past. -/
structure Keeps (name : ν) (d d' : Disk ν) : Prop where
  entry : d'.entries name = d.entries name
  survivors : ∀ x ∈ d'.survivors name, x ∈ d.survivors name
  live : d.entries name ∈ d.survivors name → d'.entries name ∈ d'.survivors name
  contents : ∀ file < d.next, d'.contents file = d.contents file
  synced : ∀ file < d.next, d.synced file = true → d'.synced file = true
  next : d.next ≤ d'.next
  presence : false ∈ d'.presence → false ∈ d.presence

/-- A name refers to a new and complete file. -/
structure Installed (name : ν) (bytes : List UInt8) (d d' : Disk ν) : Prop where
  entry : ∃ file, d'.entries name = some file ∧ d'.contents file = bytes ∧
    d'.synced file = true ∧ d.next ≤ file ∧ file < d'.next ∧
    ∀ x ∈ d'.survivors name, x = some file ∨ x ∈ d.survivors name
  live : d'.entries name ∈ d'.survivors name
  contents : ∀ file < d.next, d'.contents file = d.contents file
  synced : ∀ file < d.next, d.synced file = true → d'.synced file = true
  next : d.next ≤ d'.next
  presence : false ∈ d'.presence → false ∈ d.presence

theorem Keeps.refl (name : ν) (d : Disk ν) : Keeps name d d :=
  ⟨rfl, fun _ h => h, fun h => h, fun _ _ => rfl, fun _ _ h => h, le_refl _, fun h => h⟩

theorem Keeps.trans {name : ν} {a b c : Disk ν} (h : Keeps name a b) (h' : Keeps name b c) :
    Keeps name a c where
  entry := h'.entry.trans h.entry
  survivors x hx := h.survivors x (h'.survivors x hx)
  live hx := h'.live (h.live hx)
  contents file hf := (h'.contents file (hf.trans_le h.next)).trans (h.contents file hf)
  synced file hf hs := h'.synced file (hf.trans_le h.next) (h.synced file hf hs)
  next := h.next.trans h'.next
  presence hp := h.presence (h'.presence hp)

/-- Every name but the staging one is as it was. -/
structure Untouched (staging : ν) (d d' : Disk ν) : Prop where
  keeps : ∀ name, name ≠ staging → Keeps name d d'
  live : d.entries staging ∈ d.survivors staging → d'.entries staging ∈ d'.survivors staging
  presence : false ∈ d'.presence → false ∈ d.presence

theorem Untouched.refl (staging : ν) (d : Disk ν) : Untouched staging d d :=
  ⟨fun name _ => Keeps.refl name d, fun h => h, fun h => h⟩

/-- The state of a replacement before the renaming. -/
structure Staged (staging : ν) (file : Nat) (d d' : Disk ν) : Prop where
  others : Untouched staging d d'
  entry : d'.entries staging = some file
  new : d.next ≤ file ∧ file < d'.next

/-- The state of a replacement after the renaming. -/
structure Replaced (staging target : ν) (replace : Bool) (bytes : List UInt8) (d d' : Disk ν) :
    Prop where
  installed : Installed target bytes d d'
  others : ∀ name, name ≠ staging → name ≠ target → Keeps name d d'
  live : d'.entries staging ∈ d'.survivors staging
  vacant : replace = false → d.entries target = none

section

variable [DecidableEq ν] {staging target : ν} {file : Nat} {replace : Bool} {bytes : List UInt8}
  {d₀ d : Disk ν}

theorem staged_create : Staged staging d.next d { d.put staging (some d.next) with
    contents := Function.update d.contents d.next []
    synced := Function.update d.synced d.next false
    next := d.next + 1 } := by
  constructor
  case others =>
    refine ⟨fun name hne => ?_, fun _ => by simp [Disk.put], fun h => h⟩
    constructor
    case contents => exact fun file hf => Function.update_of_ne hf.ne _ _
    case synced => exact fun file hf hs => (Function.update_of_ne hf.ne _ _).trans hs
    all_goals simp [Disk.put, hne]
  case entry => simp [Disk.put]
  case new => exact ⟨le_refl _, Nat.lt_succ_self _⟩

omit [DecidableEq ν] in
theorem Staged.write (h : Staged staging file d₀ d) (bytes : List UInt8) :
    Staged staging file d₀ (d.write file bytes) where
  others := by
    refine ⟨fun name hne => ?_, h.others.live, h.others.presence⟩
    have hk := h.others.keeps name hne
    constructor
    case contents =>
      intro f hf
      exact (Function.update_of_ne (by have := h.new.1; omega) _ _).trans (hk.contents f hf)
    case synced =>
      intro f hf hs
      exact (Function.update_of_ne (by have := h.new.1; omega) _ _).trans (hk.synced f hf hs)
    case entry => exact hk.entry
    case survivors => exact hk.survivors
    case live => exact hk.live
    case next => exact hk.next
    case presence => exact hk.presence
  entry := h.entry
  new := h.new

omit [DecidableEq ν] in
theorem Staged.sync (h : Staged staging file d₀ d) :
    Staged staging file d₀ { d with synced := Function.update d.synced file true } where
  others := by
    refine ⟨fun name hne => ?_, h.others.live, h.others.presence⟩
    have hk := h.others.keeps name hne
    constructor
    case synced =>
      intro f hf hs
      exact (Function.update_of_ne (by have := h.new.1; omega) _ _).trans (hk.synced f hf hs)
    case contents => exact hk.contents
    case entry => exact hk.entry
    case survivors => exact hk.survivors
    case live => exact hk.live
    case next => exact hk.next
    case presence => exact hk.presence
  entry := h.entry
  new := h.new

theorem Keeps.put {name other : ν} (h : Keeps name d₀ d) (hne : name ≠ other) (x : Option Nat) :
    Keeps name d₀ (d.put other x) where
  entry := by simpa [Disk.put, hne] using h.entry
  survivors := by simpa [Disk.put, hne] using h.survivors
  live := by simpa [Disk.put, hne] using h.live
  contents := h.contents
  synced := h.synced
  next := h.next
  presence := h.presence

theorem Untouched.put (h : Untouched staging d₀ d) (x : Option Nat) :
    Untouched staging d₀ (d.put staging x) where
  keeps name hname := (h.keeps name hname).put hname x
  live := by simp [Disk.put]
  presence := h.presence

theorem Staged.rename (h : Staged staging file d₀ d) (hne : staging ≠ target)
    (hcontents : d.contents file = bytes) (hsynced : d.synced file = true)
    (hvacant : replace = false → d.entries target = none) :
    Replaced staging target replace bytes d₀ ((d.put target (some file)).put staging none) := by
  have hk := h.others.keeps target hne.symm
  constructor
  case others => exact fun name hs ht => ((h.others.keeps name hs).put ht _).put hs _
  case live => simp [Disk.put]
  case vacant => exact fun hr => hk.entry ▸ hvacant hr
  case installed =>
    constructor
    case entry =>
      refine ⟨file, by simp [Disk.put, hne.symm], hcontents, hsynced, h.new.1, h.new.2, ?_⟩
      intro x hx
      simp only [Disk.put, Function.update_of_ne hne.symm, Function.update_self,
        List.mem_cons] at hx
      exact hx.imp_right (hk.survivors x)
    case live => simp [Disk.put, hne.symm]
    case contents => exact hk.contents
    case synced => exact hk.synced
    case next => exact hk.next
    case presence => exact hk.presence

omit [DecidableEq ν] in
theorem Keeps.sync {name : ν} (h : Keeps name d₀ d) (hlive : d₀.entries name ∈ d₀.survivors name) :
    Keeps name d₀ d.settle where
  entry := h.entry
  survivors x hx := by
    rw [List.mem_singleton.mp hx]
    exact h.survivors _ (h.live hlive)
  live _ := List.mem_singleton_self _
  contents := h.contents
  synced := h.synced
  next := h.next
  presence := h.presence

omit [DecidableEq ν] in
theorem Untouched.syncDirectory (h : Untouched staging d₀ d)
    (hlive : Alive d₀) :
    Untouched staging d₀ d.settle where
  keeps name hname := (h.keeps name hname).sync (hlive name)
  live _ := List.mem_singleton_self _
  presence := h.presence

omit [DecidableEq ν] in
theorem Replaced.sync (h : Replaced staging target replace bytes d₀ d)
    (hlive : Alive d₀) :
    Replaced staging target replace bytes d₀
      d.settle where
  others name hs ht := (h.others name hs ht).sync (hlive name)
  live := List.mem_singleton_self _
  vacant := h.vacant
  installed := by
    obtain ⟨file, hentry, hcontents, hsynced, hnew, hnext, -⟩ := h.installed.entry
    constructor
    case entry =>
      refine ⟨file, hentry, hcontents, hsynced, hnew, hnext, fun x hx => ?_⟩
      rw [List.mem_singleton.mp hx]
      exact .inl hentry
    case live => exact List.mem_singleton_self _
    case contents => exact h.installed.contents
    case synced => exact h.installed.synced
    case next => exact h.installed.next
    case presence => exact h.installed.presence

theorem fill_meets {errors : Errors ε} (hne : staging ≠ target) :
    Meets (Staged staging file d₀) (fill staging target replace errors bytes file)
      (fun _ d => Replaced staging target replace bytes d₀ d)
      (fun e d => e ≠ errors.directory ∧ Untouched staging d₀ d)
      (fun d => Untouched staging d₀ d ∨ Replaced staging target replace bytes d₀ d) := by
  refine .attempt (Q := fun _ d => Staged staging file d₀ d) (.call ?_ ?_ ?_ ?_) fun _ => ?_
  · rintro d a d' hd h
    obtain ⟨rfl, rfl⟩ := Prod.mk.inj (Except.ok.inj h)
    exact hd
  · exact fun d e hd h => nomatch h
  · exact fun d e _ hd _ => ⟨errors.before _ (.inr (.inl ⟨e, rfl⟩)), hd.others⟩
  · exact fun d _ hd => .inl hd.others
  refine .attempt (Q := fun _ d => Staged staging file d₀ d ∧ d.contents file = bytes)
    (.call ?_ ?_ ?_ ?_) fun _ => ?_
  · rintro d a d' hd h
    obtain ⟨rfl, rfl⟩ := Prod.mk.inj (Except.ok.inj h)
    exact ⟨hd.write bytes, by simp [Disk.write]⟩
  · exact fun d e hd h => nomatch h
  · exact fun d e left hd _ => ⟨errors.before _ (.inr (.inr (.inl rfl))), (hd.write left).others⟩
  · exact fun d left hd => .inl (hd.write left).others
  refine .attempt (Q := fun _ d => Staged staging file d₀ d ∧ d.contents file = bytes ∧
    d.synced file = true) (.call ?_ ?_ ?_ ?_) fun _ => ?_
  · rintro d a d' ⟨hd, hcontents⟩ h
    obtain ⟨rfl, rfl⟩ := Prod.mk.inj (Except.ok.inj h)
    exact ⟨hd.sync, hcontents, by simp⟩
  · exact fun d e hd h => nomatch h
  · exact fun d e _ hd _ => ⟨errors.before _ (.inr (.inr (.inr (.inl rfl)))), hd.1.others⟩
  · exact fun d _ hd => .inl hd.1.others
  refine .attemptLast (.call ?_ ?_ ?_ ?_)
  · rintro d a d' ⟨hd, hcontents, hsynced⟩ h
    rw [hd.entry] at h
    dsimp only at h
    split_ifs at h with hfree
    obtain ⟨rfl, rfl⟩ := Prod.mk.inj (Except.ok.inj h)
    refine hd.rename hne hcontents hsynced fun hr => ?_
    by_contra hsome
    exact hfree ⟨by simp [hr], hsome⟩
  · exact fun d e hd _ => ⟨errors.before _ (.inr (.inr (.inr (.inr ⟨e, rfl⟩)))), hd.1.others⟩
  · exact fun d e _ hd _ => ⟨errors.before _ (.inr (.inr (.inr (.inr ⟨e, rfl⟩)))), hd.1.others⟩
  · exact fun d _ hd => .inl hd.1.others

/-- A replacement either leaves all names as they were or installs the new file. Its own error
tells which, and a success is durable. -/
theorem replaceFile_meets {errors : Errors ε} (hne : staging ≠ target)
    (hlive : Alive d₀) :
    Meets (fun d => d = d₀) (replaceFile staging target replace errors bytes)
      (fun _ d => Replaced staging target replace bytes d₀ d ∧
        ∀ name, d.survivors name = [d.entries name])
      (fun e d => (e ≠ errors.directory ∧ Untouched staging d₀ d) ∨
        (e = errors.directory ∧ Replaced staging target replace bytes d₀ d))
      (fun d => Untouched staging d₀ d ∨ Replaced staging target replace bytes d₀ d) := by
  have hstart := Untouched.refl staging d₀
  have hcreate : ∀ x, errors.create x ≠ errors.directory :=
    fun x => errors.before _ (.inl ⟨x, rfl⟩)
  refine .attempt (Q := fun file d => Staged staging file d₀ d) (.call ?_ ?_ ?_ ?_) fun file => ?_
  · rintro d file d' rfl h
    split_ifs at h
    obtain ⟨rfl, rfl⟩ := Prod.mk.inj (Except.ok.inj h)
    exact staged_create
  · exact fun d e hd _ => .inl ⟨hcreate e, hd ▸ hstart⟩
  · exact fun d e _ hd _ => .inl ⟨hcreate e, hd ▸ hstart⟩
  · exact fun d _ hd => .inl (hd ▸ hstart)
  refine .bind (Q := fun _ d => Replaced staging target replace bytes d₀ d)
    (.guarded (fill_meets hne) fun e => .call ?_ ?_ ?_ ?_) fun _ => .attemptLast (.call ?_ ?_ ?_ ?_)
  · rintro d a d' ⟨he, hd⟩ h
    split_ifs at h
    obtain ⟨rfl, rfl⟩ := Prod.mk.inj (Except.ok.inj h)
    exact .inl ⟨he, hd.put none⟩
  · exact fun d _ hd _ => .inl hd
  · exact fun d _ _ hd _ => .inl hd
  · exact fun d _ hd => .inl hd.2
  · rintro d a d' hd h
    obtain ⟨rfl, rfl⟩ := Prod.mk.inj (Except.ok.inj h)
    exact ⟨hd.sync hlive, fun name => rfl⟩
  · exact fun d e hd h => nomatch h
  · exact fun d e _ hd _ => .inr ⟨rfl, hd⟩
  · exact fun d _ hd => .inr hd

/-- The outcome of a replacement, with whether it was reported as done. -/
inductive Attempted (staging target : ν) (replace : Bool) (bytes : List UInt8) (d d' : Disk ν) :
    Bool → Prop
  | untouched (h : Untouched staging d d') : Attempted staging target replace bytes d d' false
  | replaced (h : Replaced staging target replace bytes d d') :
      Attempted staging target replace bytes d d' false
  | acknowledged (h : Replaced staging target replace bytes d d')
      (hsettled : ∀ name, d'.survivors name = [d'.entries name]) :
      Attempted staging target replace bytes d d' true

section

variable {a : Bool} {d' : Disk ν}

theorem Untouched.alive (h : Untouched staging d d') (ha : Alive d) : Alive d' := by
  intro other
  by_cases heq : other = staging
  · exact heq ▸ h.live (heq ▸ ha other)
  · exact (h.keeps other heq).live (ha other)

theorem Replaced.alive (h : Replaced staging target replace bytes d d') (ha : Alive d) :
    Alive d' := by
  intro other
  by_cases hs : other = staging
  · exact hs ▸ h.live
  · by_cases ht : other = target
    · exact ht ▸ h.installed.live
    · exact (h.others other hs ht).live (ha other)

theorem Attempted.alive (h : Attempted staging target replace bytes d d' a) (ha : Alive d) :
    Alive d' := by
  cases h with
  | untouched h => exact h.alive ha
  | replaced h => exact h.alive ha
  | acknowledged h _ => exact h.alive ha

omit [DecidableEq ν] in
theorem Attempted.presence (h : Attempted staging target replace bytes d d' a)
    (hp : false ∈ d'.presence) : false ∈ d.presence := by
  cases h with
  | untouched h => exact h.presence hp
  | replaced h => exact h.installed.presence hp
  | acknowledged h _ => exact h.installed.presence hp

omit [DecidableEq ν] in
theorem Attempted.vacant (h : Attempted staging target false bytes d d' a)
    (hne : target ≠ staging) (hchanged : d'.entries target ≠ d.entries target) :
    d.entries target = none := by
  cases h with
  | untouched h => exact absurd (h.keeps target hne).entry hchanged
  | replaced h => exact h.vacant rfl
  | acknowledged h _ => exact h.vacant rfl

omit [DecidableEq ν] in
theorem Attempted.keeps (h : Attempted staging target replace bytes d d' a) {name : ν}
    (hs : name ≠ staging) (ht : name ≠ target) : Keeps name d d' := by
  cases h with
  | untouched h => exact h.keeps name hs
  | replaced h => exact h.others name hs ht
  | acknowledged h _ => exact h.others name hs ht

end

end

/-! Histories of a name. -/

/-- What has happened to a name: a replacement, with whether it took place and whether it was
reported as done, or a reading that made what it saw durable. -/
inductive Event (ρ : Type)
  | attempt (payload : ρ) (installed acknowledged : Bool)
  | seen (payload : ρ)
  deriving DecidableEq, Repr

/-- What a history, newest first, allows a name to hold now. -/
def Possible (spell : ρ → List UInt8) : List (Event ρ) → Option ρ → Prop
  | [], x => x = none
  | .attempt r installed acknowledged :: older, x =>
    (installed = true ∧ x = some r) ∨ (acknowledged = false ∧ Possible spell older x)
  | .seen r :: older, x => x.map spell = some (spell r) ∧ Possible spell older x

def Unacknowledged (log : List (Event ρ)) : Prop := ∀ r i a, .attempt r i a ∈ log → a = false

def Uninstalled (log : List (Event ρ)) : Prop := ∀ r i a, .attempt r i a ∈ log → i = false

/-- Nothing was installed after something acknowledged. -/
def Once (log : List (Event ρ)) : Prop :=
  ∀ newer r i older, log = newer ++ .attempt r i true :: older → Uninstalled newer

/-- A name refers to a file with some contents. -/
def Refers (target : ν) (bytes : List UInt8) (d : Disk ν) : Prop :=
  ∃ file, d.entries target = some file ∧ d.contents file = bytes

/-- A name refers to what was acknowledged last or installed later, or to nothing if nothing was
acknowledged. -/
structure Holds (spell : ρ → List UInt8) (target : ν) (d : Disk ν) (log : List (Event ρ)) :
    Prop where
  vacant : d.entries target = none → Unacknowledged log
  complete : ∀ file, d.entries target = some file → ∃ newer r a older,
    log = newer ++ .attempt r true a :: older ∧ Unacknowledged newer ∧ d.contents file = spell r

/-- A name and its history: whatever a loss of power leaves is a complete file the history
allows. -/
structure Tracks (spell : ρ → List UInt8) (target : ν) (d : Disk ν) (log : List (Event ρ)) :
    Prop where
  live : d.entries target ∈ d.survivors target
  possible : ∀ x ∈ d.survivors target, ∃ y, Possible spell log y ∧ y.map spell = x.map d.contents
  files : ∀ file, some file ∈ d.survivors target → d.synced file = true ∧ file < d.next
  absent : false ∈ d.presence → Possible spell log none

section

variable {spell : ρ → List UInt8} {target : ν} {d d' : Disk ν} {log : List (Event ρ)} {r : ρ}

theorem Possible.none (h : Possible spell log none) : Unacknowledged log := by
  induction log with
  | nil => exact fun r i a ha => nomatch ha
  | cons e older ih =>
    cases e with
    | seen r => exact nomatch h.1
    | attempt r i a =>
      obtain ⟨-, hnone⟩ | ⟨rfl, hp⟩ := h
      · exact nomatch hnone
      · intro r' i' a' ha
        obtain heq | hin := List.mem_cons.mp ha
        · exact (Event.attempt.inj heq).2.2
        · exact ih hp r' i' a' hin

theorem Possible.some (h : Possible spell log (some r)) :
    ∃ newer a older, log = newer ++ .attempt r true a :: older ∧ Unacknowledged newer := by
  induction log with
  | nil => exact nomatch h
  | cons e older ih =>
    cases e with
    | seen r' =>
      obtain ⟨newer, a, rest, rfl, hnewer⟩ := ih h.2
      refine ⟨.seen r' :: newer, a, rest, rfl, fun r i a ha => ?_⟩
      obtain heq | hin := List.mem_cons.mp ha
      · exact nomatch heq
      · exact hnewer r i a hin
    | attempt r' i a =>
      obtain ⟨rfl, heq⟩ | ⟨rfl, hp⟩ := h
      · obtain rfl := Option.some.inj heq
        exact ⟨[], a, older, rfl, fun r i a ha => nomatch ha⟩
      · obtain ⟨newer, a, rest, rfl, hnewer⟩ := ih hp
        refine ⟨.attempt r' i false :: newer, a, rest, rfl, fun r i a ha => ?_⟩
        obtain heq | hin := List.mem_cons.mp ha
        · exact (Event.attempt.inj heq).2.2
        · exact hnewer r i a hin

theorem Possible.older {newer older : List (Event ρ)} {x : Option ρ}
    (h : Possible spell (newer ++ older) x) (hnewer : Uninstalled newer) :
    Possible spell older x := by
  induction newer with
  | nil => exact h
  | cons e newer ih =>
    have hrest : Uninstalled newer := fun r i a ha => hnewer r i a (List.mem_cons_of_mem _ ha)
    cases e with
    | seen r => exact ih h.2 hrest
    | attempt r i a =>
      obtain ⟨hi, -⟩ | ⟨-, hp⟩ := h
      · exact nomatch hi.symm.trans (hnewer r i a List.mem_cons_self)
      · exact ih hp hrest

theorem Tracks.now (h : Tracks spell target d log) :
    ∃ y, Possible spell log y ∧ y.map spell = (d.entries target).map d.contents :=
  h.possible _ h.live

theorem Tracks.holds (h : Tracks spell target d log) : Holds spell target d log := by
  obtain ⟨y, hy, hmap⟩ := h.now
  constructor
  case vacant =>
    intro hnone
    rw [hnone] at hmap
    obtain rfl := Option.map_eq_none_iff.mp hmap
    exact hy.none
  case complete =>
    intro file hfile
    rw [hfile] at hmap
    obtain ⟨r, rfl, hr⟩ := Option.map_eq_some_iff.mp hmap
    obtain ⟨newer, a, older, hlog, hnewer⟩ := hy.some
    exact ⟨newer, r, a, older, hlog, hnewer, hr.symm⟩

theorem Once.attempt (h : Once log) {i a : Bool} (hi : i = true → Unacknowledged log) :
    Once (.attempt r i a :: log) := by
  intro newer r' i' older heq
  cases newer with
  | nil => exact fun _ _ _ hin => nomatch hin
  | cons e newer =>
    obtain ⟨rfl, rfl⟩ := List.cons.inj heq
    have hfalse : i ≠ true := fun htrue => nomatch hi htrue r' i' true (by simp)
    intro r'' i'' a'' hin
    obtain hhead | htail := List.mem_cons.mp hin
    · rw [(Event.attempt.inj hhead).2.1]
      exact Bool.eq_false_iff.mpr hfalse
    · exact h newer r' i' older rfl r'' i'' a'' htail

theorem Tracks.kept {newer older : List (Event ρ)} {e : Event ρ}
    (h : Tracks spell target d (newer ++ e :: older)) (hnewer : Uninstalled newer)
    (he : e = .seen r ∨ ∃ i, e = .attempt r i true) :
    Refers target (spell r) d := by
  obtain ⟨y, hy, hmap⟩ := h.now
  have hspell : y.map spell = some (spell r) := by
    have hp := hy.older hnewer
    obtain rfl | ⟨i, rfl⟩ := he
    · exact hp.1
    · obtain ⟨-, rfl⟩ | ⟨hfalse, -⟩ := hp
      · rfl
      · exact nomatch hfalse
  exact Option.map_eq_some_iff.mp (hmap.symm.trans hspell)

/-! The steps of a history. -/

theorem tracks_blank (spell : ρ → List UInt8) (target : ν) (present : Bool) :
    Tracks spell target (.blank present) [] where
  live := List.mem_singleton_self _
  possible _ hx := ⟨none, rfl, List.mem_singleton.mp hx ▸ rfl⟩
  files _ h := nomatch List.mem_singleton.mp h
  absent _ := rfl

theorem Tracks.contents_eq (h : Tracks spell target d log)
    (hcontents : ∀ file < d.next, d'.contents file = d.contents file) {x : Option Nat}
    (hx : x ∈ d.survivors target) : x.map d'.contents = x.map d.contents := by
  cases x with
  | none => rfl
  | some file => exact congrArg some (hcontents file (h.files file hx).2)

theorem Tracks.keeps (h : Tracks spell target d log) (hk : Keeps target d d') :
    Tracks spell target d' log where
  live := hk.live h.live
  possible x hx := by
    have hold := hk.survivors x hx
    obtain ⟨y, hy, hmap⟩ := h.possible x hold
    exact ⟨y, hy, hmap.trans (h.contents_eq hk.contents hold).symm⟩
  files file hx := by
    obtain ⟨hsynced, hnext⟩ := h.files file (hk.survivors _ hx)
    exact ⟨hk.synced file hnext hsynced, hnext.trans_le hk.next⟩
  absent hp := h.absent (hk.presence hp)

theorem Tracks.refused (h : Tracks spell target d log) (r : ρ) :
    Tracks spell target d (.attempt r false false :: log) where
  live := h.live
  possible x hx := by
    obtain ⟨y, hy, hmap⟩ := h.possible x hx
    exact ⟨y, .inr ⟨rfl, hy⟩, hmap⟩
  files := h.files
  absent hp := .inr ⟨rfl, h.absent hp⟩

theorem Tracks.installed (h : Tracks spell target d log) (hi : Installed target (spell r) d d') :
    Tracks spell target d' (.attempt r true false :: log) := by
  obtain ⟨new, hentry, hnew, hsynced, -, hnext, hsurvivors⟩ := hi.entry
  constructor
  case live => exact hi.live
  case possible =>
    intro x hx
    obtain rfl | hold := hsurvivors x hx
    · exact ⟨some r, .inl ⟨rfl, rfl⟩, congrArg some hnew.symm⟩
    · obtain ⟨y, hy, hmap⟩ := h.possible x hold
      exact ⟨y, .inr ⟨rfl, hy⟩, hmap.trans (h.contents_eq hi.contents hold).symm⟩
  case files =>
    intro file hx
    obtain heq | hold := hsurvivors _ hx
    · obtain rfl := Option.some.inj heq
      exact ⟨hsynced, hnext⟩
    · obtain ⟨hs, hn⟩ := h.files file hold
      exact ⟨hi.synced file hn hs, hn.trans_le hi.next⟩
  case absent => exact fun hp => .inr ⟨rfl, h.absent (hi.presence hp)⟩

theorem Tracks.acknowledged (h : Tracks spell target d log)
    (hi : Installed target (spell r) d d') (hsettled : d'.survivors target = [d'.entries target])
    (hstays : false ∉ d.presence) : Tracks spell target d' (.attempt r true true :: log) where
  live := hi.live
  possible x hx := by
    obtain ⟨file, hentry, hfile, -⟩ := hi.entry
    rw [hsettled, hentry] at hx
    rw [List.mem_singleton.mp hx]
    exact ⟨some r, .inl ⟨rfl, rfl⟩, congrArg some hfile.symm⟩
  files := (h.installed hi).files
  absent hp := absurd (hi.presence hp) hstays

/-! A replacement shows in the entry. -/

theorem Tracks.unchanged (h : Tracks spell target d log) (hk : Keeps target d d') (r : ρ) :
    Tracks spell target d' (.attempt r (d'.entries target ≠ d.entries target) false :: log) := by
  have hflag : decide (d'.entries target ≠ d.entries target) = false := by simp [hk.entry]
  rw [hflag]
  exact (h.keeps hk).refused r

theorem Tracks.changed (h : Tracks spell target d log) {bytes : List UInt8}
    (hi : Installed target bytes d d') : decide (d'.entries target ≠ d.entries target) = true := by
  obtain ⟨file, hentry, -, -, hnew, -⟩ := hi.entry
  refine decide_eq_true fun heq => ?_
  have hold : some file ∈ d.survivors target := hentry ▸ heq ▸ h.live
  have hlt := (h.files file hold).2
  omega

theorem Tracks.replaced (h : Tracks spell target d log) (hi : Installed target (spell r) d d')
    {a : Bool} (ha : a = true → d'.survivors target = [d'.entries target] ∧ false ∉ d.presence) :
    Tracks spell target d' (.attempt r (d'.entries target ≠ d.entries target) a :: log) := by
  rw [h.changed hi]
  cases a with
  | false => exact h.installed hi
  | true => exact h.acknowledged hi (ha rfl).1 (ha rfl).2

theorem Tracks.attempted (h : Tracks spell target d log) {staging : ν} {replace a : Bool}
    (hattempt : Attempted staging target replace (spell r) d d' a) (hne : target ≠ staging)
    (hstays : a = true → false ∉ d.presence) :
    Tracks spell target d' (.attempt r (d'.entries target ≠ d.entries target) a :: log) := by
  cases hattempt with
  | untouched hu => exact h.unchanged (hu.keeps target hne) r
  | replaced hr => exact h.replaced hr.installed nofun
  | acknowledged hr hsettled =>
    exact h.replaced hr.installed fun htrue => ⟨hsettled target, hstays htrue⟩

theorem Tracks.settle {e : Event ρ} (h : Tracks spell target d log)
    (hsettled : d.survivors target = [d.entries target]) (hstays : false ∉ d.presence)
    (hnow : ∃ y, Possible spell (e :: log) y ∧ y.map spell = (d.entries target).map d.contents) :
    Tracks spell target d (e :: log) where
  live := h.live
  possible x hx := by
    rw [hsettled] at hx
    rw [List.mem_singleton.mp hx]
    exact hnow
  files := h.files
  absent hp := absurd hp hstays

theorem Tracks.survives (h : Tracks spell target d log) (hs : Survives d d') :
    Tracks spell target d' log := by
  have hx : d'.entries target ∈ d.survivors target ∨
      (d'.entries target = none ∧ false ∈ d.presence) := by
    cases hpresent : d'.present with
    | false => exact .inr ⟨hs.gone hpresent target, hpresent ▸ hs.presence⟩
    | true => exact .inl (hs.entries hpresent target)
  have hfile : ∀ file, d'.entries target = some file → some file ∈ d.survivors target := by
    intro file hentry
    obtain hold | ⟨hnone, -⟩ := hx
    · exact hentry ▸ hold
    · exact nomatch hnone.symm.trans hentry
  constructor
  case live => exact hs.survivors target ▸ List.mem_singleton_self _
  case possible =>
    intro x hmem
    rw [hs.survivors] at hmem
    rw [List.mem_singleton.mp hmem]
    obtain hold | ⟨hnone, hp⟩ := hx
    · obtain ⟨y, hy, hmap⟩ := h.possible _ hold
      refine ⟨y, hy, hmap.trans ?_⟩
      cases hentry : d'.entries target with
      | none => rfl
      | some file =>
        have hsynced := (h.files file (hfile file hentry)).1
        exact congrArg some (hs.contents file hsynced).1.symm
    · exact ⟨none, h.absent hp, by rw [hnone]; rfl⟩
  case files =>
    intro file hmem
    rw [hs.survivors] at hmem
    obtain ⟨hsynced, hnext⟩ := h.files file (hfile file (List.mem_singleton.mp hmem).symm)
    exact ⟨(hs.contents file hsynced).2, hs.next ▸ hnext⟩
  case absent =>
    intro hp
    rw [hs.settled] at hp
    have hgone : d'.present = false := (List.mem_singleton.mp hp).symm
    exact h.absent (hgone ▸ hs.presence)

end

end Durable
