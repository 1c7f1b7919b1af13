import TalkSphere.Replacement

/-! Opening a directory of records: walking to it, making it where it is missing, and removing
what an interrupted replacement has left in it. -/

namespace Durable

variable {ν ε : Type}

inductive Component
  | root
  | current
  | normal
  | unsupported
  deriving DecidableEq, Repr

structure PathErrors (ε : Type) where
  empty : ε
  unsupported : ε
  opening : Errno → ε
  making : Errno → ε
  syncing : ε

/-- The last component is the directory itself, which may be made. -/
def openLast (errors : PathErrors ε) : Prog ν ε Unit := do
  match ← openDirectory with
  | .ok () => pure ()
  | .error .noEntry =>
    match ← makeDirectory with
    | .ok () | .error .exists =>
      orFail (fun _ => errors.syncing) (← syncParent)
      orFail errors.opening (← openDirectory)
    | .error e => fail (errors.making e)
  | .error e => fail (errors.opening e)

/-- Opening what the rest of a path starts from: the directory, or one above it. -/
def openAbove (rest : List Component) : Prog ν ε (Except Errno Unit) :=
  if .normal ∈ rest then inspect else openDirectory

def walk (errors : PathErrors ε) : List Component → Prog ν ε Unit
  | [] => pure ()
  | .root :: rest => walk errors rest
  | .current :: rest => walk errors rest
  | .unsupported :: _ => fail errors.unsupported
  | .normal :: rest =>
    if rest = [] then openLast errors
    else do
      orFail errors.opening (← openAbove rest)
      walk errors rest

/-- A path without a name is the directory it starts from. -/
def openPath (errors : PathErrors ε) (path : List Component) : Prog ν ε Unit :=
  if path = [] then fail errors.empty
  else do
    orFail errors.opening (← openAbove path)
    walk errors path

structure ClearErrors (ε : Type) where
  opening : Errno → ε
  check : Errno → ε
  removing : Errno → ε
  syncing : ε

/-- Removing a file that may have been left behind, without reading it. -/
def clear [DecidableEq ν] (name : ν) (errors : ClearErrors ε) : Prog ν ε Unit := do
  match ← openRead name with
  | .ok _ =>
    orFail errors.check (← inspect)
    orFail errors.removing (← unlink name)
    orFail (fun _ => errors.syncing) (← syncDirectory)
  | .error .noEntry => pure ()
  | .error e => fail (errors.opening e)

/-! What opening leaves alone. -/

/-- All names but some are as they were. -/
structure Kept (staging : List ν) (d d' : Disk ν) : Prop where
  keeps : ∀ name, name ∉ staging → Keeps name d d'
  alive : Alive d → Alive d'
  presence : false ∈ d'.presence → false ∈ d.presence

section

variable {staging : List ν} {a b c : Disk ν} {name : ν} {S : Disk ν → Prop}

theorem Kept.refl (staging : List ν) (d : Disk ν) : Kept staging d d :=
  ⟨fun name _ => Keeps.refl name d, fun h => h, fun h => h⟩

theorem Kept.trans (h : Kept staging a b) (h' : Kept staging b c) : Kept staging a c where
  keeps name hn := (h.keeps name hn).trans (h'.keeps name hn)
  alive ha := h'.alive (h.alive ha)
  presence hp := h.presence (h'.presence hp)

theorem Untouched.kept [DecidableEq ν] (h : Untouched name a b) (hn : name ∈ staging) :
    Kept staging a b where
  keeps other ho := h.keeps other fun heq => ho (heq ▸ hn)
  alive := h.alive
  presence := h.presence

theorem Kept.settle (staging : List ν) (ha : Alive a) : Kept staging a a.settle where
  keeps name _ := (Keeps.refl name a).sync (ha name)
  alive _ _ := List.mem_singleton_self _
  presence h := h

theorem Kept.move (h : Kept staging a b) {present : Bool} {presence : List Bool}
    (hp : false ∈ presence → false ∈ a.presence) :
    Kept staging a { b with present := present, presence := presence } where
  keeps name hn := { h.keeps name hn with presence := hp }
  alive := h.alive
  presence := hp

/-- A directory that is missing will be recorded for good when it is made; one that is there
must have been. -/
def Disk.Anchored (d : Disk ν) : Prop := d.present = true → false ∉ d.presence

/-- What a directory is like that has been opened. -/
structure Entered (staging : List ν) (d d' : Disk ν) : Prop where
  kept : Kept staging d d'
  anchored : d.Anchored → false ∉ d'.presence

theorem Entered.trans (h : Entered staging a b) (h' : Kept staging b c) : Entered staging a c where
  kept := h.kept.trans h'
  anchored ha hp := h.anchored ha (h'.presence hp)

theorem entered_refl (h : a.present = true) : Entered staging a a where
  kept := Kept.refl _ _
  anchored ha := ha h

theorem syncParent_meets {errors : PathErrors ε} :
    Meets (fun d : Disk ν => Kept staging a d ∧ d.present = true)
      (do
        orFail (fun _ => errors.syncing) (← syncParent)
        orFail errors.opening (← openDirectory))
      (fun _ => Entered staging a) (fun _ => Kept staging a) (Kept staging a) := by
  refine .attempt (Q := fun _ => Entered staging a) (.call ?_ ?_ ?_ ?_) fun _ => .attemptLast
    ((Meets.openDirectory fun _ h => h.kept).weaken (fun _ h => h) (fun r d h => ?_)
      (fun _ _ h => h) fun _ h => h)
  · rintro d _ d' ⟨hd, hpresent⟩ h
    obtain ⟨-, rfl⟩ := Prod.mk.inj (Except.ok.inj h)
    have hpresence : false ∉ [d.present] := by simp [hpresent]
    exact ⟨hd.move fun hfalse => absurd hfalse hpresence, fun _ => hpresence⟩
  · exact fun d e hd h => nomatch h
  · exact fun d _ _ hd _ => hd.1
  · exact fun d _ hd => hd.1
  · cases r with
    | ok _ => exact h.1
    | error _ => exact h.1.kept

/-- A directory that was missing is there for good once it was made. -/
theorem openLast_meets {errors : PathErrors ε} :
    Meets (fun d => d = a) (openLast errors) (fun _ => Entered staging a) (fun _ => Kept staging a)
      (Kept staging a) := by
  refine .bind (Meets.openDirectory fun d h => h ▸ Kept.refl _ d) fun r => ?_
  cases r with
  | ok _ =>
    refine .ret ?_
    rintro d ⟨rfl, hpresent⟩
    exact entered_refl (hpresent rfl)
  | error e =>
    cases e with
    | noEntry =>
      refine .bind (Q := fun r d => Kept staging a d ∧
        (r = .ok () ∨ r = .error .exists → d.present = true)) (.call ?_ ?_ ?_ ?_) fun r => ?_
      · rintro d x d' ⟨rfl, -⟩ h
        split_ifs at h with hp
        obtain ⟨-, rfl⟩ := Prod.mk.inj (Except.ok.inj h)
        refine ⟨(Kept.refl _ d).move fun hfalse => ?_, fun _ => rfl⟩
        exact (List.mem_cons.mp hfalse).resolve_left Bool.false_ne_true
      · rintro d e ⟨rfl, -⟩ h
        split_ifs at h with hp
        exact ⟨Kept.refl _ d, fun _ => hp⟩
      · rintro d e _ ⟨rfl, -⟩ (rfl | rfl)
        · exact ⟨Kept.refl _ d, fun h => by simp at h⟩
        · exact ⟨Kept.refl _ d, fun h => by simp at h⟩
      · rintro d _ ⟨rfl, -⟩
        exact Kept.refl _ d
      · cases r with
        | ok _ =>
          exact syncParent_meets.weaken (fun d h => ⟨h.1, h.2 (.inl rfl)⟩) (fun _ _ h => h)
            (fun _ _ h => h) fun _ h => h
        | error e =>
          cases e with
          | «exists» =>
            exact syncParent_meets.weaken (fun d h => ⟨h.1, h.2 (.inr rfl)⟩) (fun _ _ h => h)
              (fun _ _ h => h) fun _ h => h
          | _ => exact .fail fun _ h => h.1
    | _ => exact .fail fun d h => h.1 ▸ Kept.refl _ d

/-- Nothing is done before the last name of a path, and behind it the directory is open. -/
def Ahead (staging : List ν) (a : Disk ν) (path : List Component) (d : Disk ν) : Prop :=
  if .normal ∈ path then d = a else Entered staging a d

theorem Ahead.kept {path : List Component} (h : Ahead staging a path b) : Kept staging a b := by
  unfold Ahead at h
  split_ifs at h
  · exact h ▸ Kept.refl _ b
  · exact h.kept

theorem ahead_meets {errors : PathErrors ε} {path : List Component} {rest : Prog ν ε Unit}
    (h : Meets (Ahead staging a path) rest (fun _ => Entered staging a) (fun _ => Kept staging a)
      (Kept staging a)) :
    Meets (fun d => d = a)
      (do
        orFail errors.opening (← openAbove path)
        rest)
      (fun _ => Entered staging a) (fun _ => Kept staging a) (Kept staging a) := by
  have hkept : ∀ d, d = a → Kept staging a d := fun d hd => hd ▸ Kept.refl _ d
  refine .attempt (Q := fun _ => Ahead staging a path) ?_ fun _ => h
  unfold openAbove
  split_ifs with hin
  · refine Meets.inspect.weaken (fun _ h => h) (fun r d hd => ?_) (fun _ _ h => h) hkept
    cases r with
    | ok _ =>
      show Ahead staging a path d
      rwa [Ahead, if_pos hin]
    | error _ => exact hkept d hd
  · refine (Meets.openDirectory hkept).weaken (fun _ h => h) (fun r d hd => ?_) (fun _ _ h => h)
      fun _ h => h
    cases r with
    | ok _ =>
      obtain ⟨rfl, hpresent⟩ := hd
      show Ahead staging d path d
      rw [Ahead, if_neg hin]
      exact entered_refl (hpresent rfl)
    | error _ => exact hkept d hd.1

theorem walk_meets {errors : PathErrors ε} (path : List Component) :
    Meets (Ahead staging a path) (walk errors path) (fun _ => Entered staging a)
      (fun _ => Kept staging a) (Kept staging a) := by
  induction path with
  | nil => exact .ret fun _ h => h
  | cons c rest ih =>
    cases c with
    | root => simpa [walk, Meets, Ahead] using ih
    | current => simpa [walk, Meets, Ahead] using ih
    | unsupported => exact .fail fun _ h => h.kept
    | normal =>
      have hfirst : ∀ d, Ahead staging a (.normal :: rest) d → d = a :=
        fun d h => (if_pos List.mem_cons_self).mp h
      rw [walk]
      split_ifs
      · exact openLast_meets.weaken hfirst (fun _ _ h => h) (fun _ _ h => h) fun _ h => h
      · exact (ahead_meets ih).weaken hfirst (fun _ _ h => h) (fun _ _ h => h) fun _ h => h

theorem openPath_meets {errors : PathErrors ε} (path : List Component) :
    Meets (fun d => d = a) (openPath errors path) (fun _ => Entered staging a)
      (fun _ => Kept staging a) (Kept staging a) := by
  rw [openPath]
  split_ifs
  · exact .fail fun d h => h ▸ Kept.refl _ d
  · exact ahead_meets (walk_meets path)

theorem clear_meets [DecidableEq ν] {errors : ClearErrors ε} (ha : Alive a) (hn : name ∈ staging) :
    Meets (fun d => d = a) (clear name errors) (fun _ d => Kept staging a d)
      (fun _ d => Kept staging a d) (Kept staging a) := by
  have hrefl : ∀ d, d = a → Untouched name a d := fun d h => h ▸ Untouched.refl name d
  refine .weaken (P := fun d => Untouched name a d) (Q := fun _ d => Untouched name a d)
    (E := fun _ d => Untouched name a d) (S := Untouched name a) ?_ hrefl
    (fun _ d h => h.kept hn) (fun _ d h => h.kept hn) fun d h => h.kept hn
  refine .bind .openRead fun r => ?_
  cases r with
  | ok file =>
    refine .check .inspect fun _ => .attempt (Q := fun _ d => Untouched name a d)
      (.call ?_ ?_ ?_ ?_) fun _ => .attemptLast (.call ?_ ?_ ?_ ?_)
    · intro d _ d' hd h
      split_ifs at h
      obtain ⟨-, rfl⟩ := Prod.mk.inj (Except.ok.inj h)
      exact hd.put none
    · exact fun d _ hd _ => hd
    · exact fun d _ _ hd _ => hd
    · exact fun d _ hd => hd
    · intro d _ d' hd h
      obtain ⟨-, rfl⟩ := Prod.mk.inj (Except.ok.inj h)
      exact hd.syncDirectory ha
    · exact fun d _ hd _ => hd
    · exact fun d _ _ hd _ => hd
    · exact fun d _ hd => hd
  | error e =>
    cases e with
    | noEntry => exact .ret fun _ h => h
    | _ => exact .fail fun _ h => h

/-- What a store does to the directory once that is open. -/
theorem Meets.opened {rest : Prog ν ε Unit} (ha : Alive a)
    (h : ∀ x, Alive x → Meets (Kept staging x) rest (fun _ => Kept staging x)
      (fun _ => Kept staging x) (Kept staging x)) :
    Meets (Entered staging a) rest (fun _ => Entered staging a) (fun _ => Kept staging a)
      (Kept staging a) := by
  refine .start fun x hx => (h x (hx.kept.alive ha)).weaken ?_ ?_ ?_ ?_
  · exact fun d hd => hd ▸ Kept.refl _ d
  · exact fun _ d hd => hx.trans hd
  · exact fun _ d hd => hx.kept.trans hd
  · exact fun d hd => hx.kept.trans hd

theorem opened_run {prog : Prog ν ε Unit} {faults : List Fault} {reply : Reply ε Unit}
    (h : Meets (fun d => d = a) prog (fun _ => Entered staging a) (fun _ => Kept staging a)
      (Kept staging a)) (hrun : run prog a faults = (reply, b)) :
    Kept staging a b ∧ (reply.acknowledged = true → a.Anchored → false ∉ b.presence) := by
  have hmeets := h.run rfl hrun
  cases reply with
  | ok _ => exact ⟨hmeets.kept, fun _ => hmeets.anchored⟩
  | failed e => exact ⟨hmeets, fun h => by cases h⟩
  | stopped => exact ⟨hmeets, fun h => by cases h⟩

end

/-! Runs of a store, given by its states with the disk of each and by its labeled steps. -/

section

variable {W L : Type} {step : W → L → W → Prop} {allowed : W → L → Prop} {w₀ w : W}

inductive Reaches (step : W → L → W → Prop) (allowed : W → L → Prop) (w₀ : W) : W → Prop
  | start : Reaches step allowed w₀ w₀
  | step {w w' : W} {l : L} (h : Reaches step allowed w₀ w) (hallowed : allowed w l)
      (hstep : step w l w') : Reaches step allowed w₀ w'

theorem Reaches.inv {Inv : W → Prop} (h : Reaches step allowed w₀ w) (hstart : Inv w₀)
    (hstep : ∀ {w l w'}, Inv w → allowed w l → step w l w' → Inv w') : Inv w := by
  induction h with
  | start => exact hstart
  | step _ hallowed hs ih => exact hstep ih hallowed hs

/-- Wherever the store is opened, its directory is missing or its entry cannot be lost. -/
def Anchored (disk : W → Disk ν) (opens : L → Bool) (w : W) (l : L) : Prop :=
  opens l = true → (disk w).Anchored

end

end Durable
