import Mathlib.Data.List.Basic
import Mathlib.Tactic.Common

/-! A directory on a disk that can lose power, and programs of system calls on it.

A name of the directory refers to a file. Until the directory is synchronized, a loss of power
may leave under a name any reference it had since the last synchronization; until a file is
synchronized, it may leave any contents. The directory itself is an entry of its parent. Every
call may fail or be the last one of the process. -/

namespace Durable

structure Disk (ν : Type) where
  entries : ν → Option Nat
  /-- What a loss of power may leave under a name. -/
  survivors : ν → List (Option Nat)
  contents : Nat → List UInt8
  synced : Nat → Bool
  /-- The next file to be created. -/
  next : Nat
  /-- Whether the directory is there, and whether it may be after a loss of power. -/
  present : Bool
  presence : List Bool

inductive Errno
  | noEntry
  | exists
  | access
  | other
  deriving DecidableEq, Repr

/-- What goes wrong at a call; a write that goes wrong leaves something behind. -/
inductive Fault
  | none
  | fails (access : Bool) (leaves : List UInt8)
  | stops (leaves : List UInt8)
  deriving DecidableEq, Repr

structure Machine (ν : Type) where
  disk : Disk ν
  faults : List Fault

/-- How a program ends early: with an error of its own, or with the end of its process. -/
inductive Halt (ε : Type)
  | failed (error : ε)
  | stopped
  deriving DecidableEq, Repr

abbrev Prog (ν ε α : Type) := EStateM (Halt ε) (Machine ν) α

section

variable {ν ε α β : Type}

/-! Programs. -/

def fail (error : ε) : Prog ν ε α := throw (.failed error)

def orFail (error : Errno → ε) : Except Errno α → Prog ν ε α
  | .ok a => pure a
  | .error e => fail (error e)

/-- A computation that touches no disk. -/
def ofExcept : Except ε α → Prog ν ε α
  | .ok a => pure a
  | .error e => fail e

/-- One system call. -/
def call (act : Disk ν → Except Errno (α × Disk ν)) (leave : List UInt8 → Disk ν → Disk ν) :
    Prog ν ε (Except Errno α) := fun m =>
  match m.faults.head?.getD .none with
  | .none =>
    match act m.disk with
    | .ok (a, disk) => .ok (.ok a) ⟨disk, m.faults.tail⟩
    | .error e => .ok (.error e) ⟨m.disk, m.faults.tail⟩
  | .fails access bytes =>
    .ok (.error (if access then .access else .other)) ⟨leave bytes m.disk, m.faults.tail⟩
  | .stops bytes => .error .stopped ⟨leave bytes m.disk, m.faults.tail⟩

/-- A body whose failure is followed by a clean-up, which may itself fail unnoticed. -/
def guarded (body : Prog ν ε α) (cleanup : Prog ν ε (Except Errno Unit)) : Prog ν ε α := fun m =>
  match body m with
  | .error (.failed e) m' =>
    match cleanup m' with
    | .ok _ m'' => .error (.failed e) m''
    | .error _ m'' => .error .stopped m''
  | r => r

/-- What is known of a program that has run. -/
inductive Reply (ε α : Type)
  | ok (value : α)
  | failed (error : ε)
  | stopped
  deriving DecidableEq, Repr

def Reply.acknowledged : Reply ε α → Bool
  | .ok _ => true
  | _ => false

/-- What a process holds is gone when the process is. -/
def Reply.keep {σ : Type} (held : Option σ) : Reply ε α → Option σ
  | .stopped => none
  | _ => held

def run (prog : Prog ν ε α) (d : Disk ν) (faults : List Fault) : Reply ε α × Disk ν :=
  match prog ⟨d, faults⟩ with
  | .ok a m => (.ok a, m.disk)
  | .error (.failed e) m => (.failed e, m.disk)
  | .error .stopped m => (.stopped, m.disk)

/-! The calls. -/

/-- A directory without files, whose own entry is durable. -/
def Disk.blank (present : Bool) : Disk ν where
  entries _ := none
  survivors _ := [none]
  contents _ := []
  synced _ := false
  next := 0
  present := present
  presence := [present]

def Disk.put [DecidableEq ν] (d : Disk ν) (name : ν) (file : Option Nat) : Disk ν :=
  { d with
    entries := Function.update d.entries name file
    survivors := Function.update d.survivors name (file :: d.survivors name) }

/-- A new file under a name that is free. -/
def createNew [DecidableEq ν] (name : ν) : Prog ν ε (Except Errno Nat) :=
  call (fun d => if d.entries name = none then
      .ok (d.next, { d.put name (some d.next) with
        contents := Function.update d.contents d.next []
        synced := Function.update d.synced d.next false
        next := d.next + 1 })
    else .error .exists) fun _ d => d

def openRead (name : ν) : Prog ν ε (Except Errno Nat) :=
  call (fun d => match d.entries name with
    | some file => .ok (file, d)
    | none => .error .noEntry) fun _ d => d

/-- A look at metadata, which has no effect. -/
def inspect : Prog ν ε (Except Errno Unit) := call (fun d => .ok ((), d)) fun _ d => d

def Disk.write (d : Disk ν) (file : Nat) (bytes : List UInt8) : Disk ν :=
  { d with
    contents := Function.update d.contents file bytes
    synced := Function.update d.synced file false }

def writeAll (file : Nat) (bytes : List UInt8) : Prog ν ε (Except Errno Unit) :=
  call (fun d => .ok ((), d.write file bytes)) fun left d => d.write file left

def syncFile (file : Nat) : Prog ν ε (Except Errno Unit) :=
  call (fun d => .ok ((), { d with synced := Function.update d.synced file true })) fun _ d => d

def size (file : Nat) : Prog ν ε (Except Errno Nat) :=
  call (fun d => .ok ((d.contents file).length, d)) fun _ d => d

def read (file : Nat) (bound : Nat) : Prog ν ε (Except Errno (List UInt8)) :=
  call (fun d => .ok ((d.contents file).take bound, d)) fun _ d => d

/-- Renaming, which may be told not to replace what is there. -/
def rename [DecidableEq ν] (source target : ν) (replace : Bool) : Prog ν ε (Except Errno Unit) :=
  call (fun d => match d.entries source with
    | none => .error .noEntry
    | some file =>
      if ¬ replace ∧ d.entries target ≠ none then .error .exists
      else .ok ((), (d.put target (some file)).put source none)) fun _ d => d

def unlink [DecidableEq ν] (name : ν) : Prog ν ε (Except Errno Unit) :=
  call (fun d => if d.entries name = none then .error .noEntry else .ok ((), d.put name none))
    fun _ d => d

/-- Nothing of the past is left. -/
def Disk.settle (d : Disk ν) : Disk ν := { d with survivors := fun name => [d.entries name] }

def syncDirectory : Prog ν ε (Except Errno Unit) :=
  call (fun d => .ok ((), d.settle)) fun _ d => d

def openDirectory : Prog ν ε (Except Errno Unit) :=
  call (fun d => if d.present then .ok ((), d) else .error .noEntry) fun _ d => d

def makeDirectory : Prog ν ε (Except Errno Unit) :=
  call (fun d => if d.present then .error .exists
    else .ok ((), { d with present := true, presence := true :: d.presence })) fun _ d => d

def syncParent : Prog ν ε (Except Errno Unit) :=
  call (fun d => .ok ((), { d with presence := [d.present] })) fun _ d => d

/-! Losing power. -/

/-- The disk that comes back. -/
structure Survives (d d' : Disk ν) : Prop where
  presence : d'.present ∈ d.presence
  gone : d'.present = false → ∀ name, d'.entries name = none
  entries : d'.present = true → ∀ name, d'.entries name ∈ d.survivors name
  survivors : ∀ name, d'.survivors name = [d'.entries name]
  contents : ∀ file, d.synced file = true → d'.contents file = d.contents file ∧
    d'.synced file = true
  next : d'.next = d.next
  settled : d'.presence = [d'.present]

/-- A directory that was made, but not yet recorded for good in the one it is in. -/
def Disk.unanchored : Disk ν := { Disk.blank false with present := true, presence := [true, false] }

/-- What is left of a disk that loses its directory. -/
def Disk.lost (d : Disk ν) : Disk ν :=
  { Disk.blank false with contents := d.contents, synced := d.synced, next := d.next }

theorem survives_lost {d : Disk ν} (h : false ∈ d.presence) : Survives d d.lost :=
  ⟨h, fun _ _ => rfl, nofun, fun _ => rfl, fun _ hs => ⟨rfl, hs⟩, rfl, rfl⟩

/-- What is left of a disk that comes back with some of its entries. -/
def Disk.restored (d : Disk ν) (entries : ν → Option Nat) : Disk ν :=
  { d with entries, survivors := fun name => [entries name], present := true, presence := [true] }

theorem survives_restored {d : Disk ν} {entries : ν → Option Nat} (hp : true ∈ d.presence)
    (h : ∀ name, entries name ∈ d.survivors name) : Survives d (d.restored entries) :=
  ⟨hp, nofun, fun _ => h, fun _ => rfl, fun _ hs => ⟨rfl, hs⟩, rfl, rfl⟩

/-! Rules for programs. -/

/-- From disks with `P`, the program ends in `Q`, fails in `E` or stops in `S`. -/
def Meets (P : Disk ν → Prop) (prog : Prog ν ε α) (Q : α → Disk ν → Prop)
    (E : ε → Disk ν → Prop) (S : Disk ν → Prop) : Prop :=
  ∀ m : Machine ν, P m.disk → match prog m with
    | .ok a m' => Q a m'.disk
    | .error (.failed e) m' => E e m'.disk
    | .error .stopped m' => S m'.disk

variable {P P' : Disk ν → Prop} {Q Q' : α → Disk ν → Prop} {E E' : ε → Disk ν → Prop}
  {S S' : Disk ν → Prop}

theorem Meets.run {prog : Prog ν ε α} {d d' : Disk ν} {faults : List Fault} {reply : Reply ε α}
    (h : Meets P prog Q E S) (hd : P d) (hrun : Durable.run prog d faults = (reply, d')) :
    match reply with
    | .ok a => Q a d'
    | .failed e => E e d'
    | .stopped => S d' := by
  have hm := h ⟨d, faults⟩ hd
  rw [Durable.run] at hrun
  cases hr : prog ⟨d, faults⟩ with
  | ok a m =>
    rw [hr] at hm hrun
    obtain ⟨rfl, rfl⟩ := Prod.mk.inj hrun
    exact hm
  | error halt m =>
    rw [hr] at hm hrun
    cases halt with
    | failed e =>
      obtain ⟨rfl, rfl⟩ := Prod.mk.inj hrun
      exact hm
    | stopped =>
      obtain ⟨rfl, rfl⟩ := Prod.mk.inj hrun
      exact hm

theorem Meets.ret {a : α} (h : ∀ d, P d → Q a d) : Meets P (pure a : Prog ν ε α) Q E S :=
  fun m hm => h m.disk hm

theorem Meets.fail {e : ε} (h : ∀ d, P d → E e d) : Meets P (Durable.fail e : Prog ν ε α) Q E S :=
  fun m hm => h m.disk hm

theorem Meets.bind {x : Prog ν ε α} {f : α → Prog ν ε β} {R : β → Disk ν → Prop}
    (hx : Meets P x Q E S) (hf : ∀ a, Meets (Q a) (f a) R E S) : Meets P (x >>= f) R E S := by
  intro m hm
  have hfirst := hx m hm
  cases hr : x m with
  | ok a m' =>
    have hbind : (x >>= f) m = f a m' := by simp only [Bind.bind, EStateM.bind, hr]
    rw [hr] at hfirst
    rw [hbind]
    exact hf a m' hfirst
  | error halt m' =>
    have hbind : (x >>= f) m = .error halt m' := by simp only [Bind.bind, EStateM.bind, hr]
    rw [hr] at hfirst
    rw [hbind]
    cases halt with
    | failed e => exact hfirst
    | stopped => exact hfirst

theorem Meets.ofExcept {x : Except ε α} {f : α → Prog ν ε β} {R : β → Disk ν → Prop}
    (hok : ∀ a, x = .ok a → Meets P (f a) R E S) (herror : ∀ e d, x = .error e → P d → E e d) :
    Meets P (Durable.ofExcept x >>= f) R E S := by
  cases x with
  | ok a => exact hok a rfl
  | error e => exact fun m hm => herror e m.disk rfl hm

theorem Meets.ofExceptLast {x : Except ε α} (hok : ∀ a d, x = .ok a → P d → Q a d)
    (herror : ∀ e d, x = .error e → P d → E e d) : Meets P (Durable.ofExcept x) Q E S := by
  cases x with
  | ok a => exact .ret fun d hd => hok a d rfl hd
  | error e => exact .fail fun d hd => herror e d rfl hd

theorem Meets.weaken {x : Prog ν ε α} (h : Meets P x Q E S) (hP : ∀ d, P' d → P d)
    (hQ : ∀ a d, Q a d → Q' a d) (hE : ∀ e d, E e d → E' e d) (hS : ∀ d, S d → S' d) :
    Meets P' x Q' E' S' := by
  intro m hm
  have hrun := h m (hP m.disk hm)
  cases hr : x m with
  | ok a m' => rw [hr] at hrun; exact hQ a _ hrun
  | error halt m' =>
    rw [hr] at hrun
    cases halt with
    | failed e => exact hE e _ hrun
    | stopped => exact hS _ hrun

theorem Meets.start {x : Prog ν ε α} (h : ∀ d₀, P d₀ → Meets (fun d => d = d₀) x Q E S) :
    Meets P x Q E S :=
  fun m hm => h m.disk hm m rfl

theorem Meets.call {act : Disk ν → Except Errno (α × Disk ν)}
    {leave : List UInt8 → Disk ν → Disk ν} {Q : Except Errno α → Disk ν → Prop}
    (hok : ∀ d a d', P d → act d = .ok (a, d') → Q (.ok a) d')
    (herror : ∀ d e, P d → act d = .error e → Q (.error e) d)
    (hfault : ∀ d e bytes, P d → e = .access ∨ e = .other → Q (.error e) (leave bytes d))
    (hstop : ∀ d bytes, P d → S (leave bytes d)) :
    Meets P (Durable.call act leave : Prog ν ε _) Q E S := by
  intro m hm
  rw [Durable.call]
  cases m.faults.head?.getD .none with
  | none =>
    cases ha : act m.disk with
    | ok r => exact hok _ _ _ hm ha
    | error e => exact herror _ _ hm ha
  | fails access bytes =>
    refine hfault _ _ bytes hm ?_
    cases access
    · exact .inr rfl
    · exact .inl rfl
  | stops bytes => exact hstop _ bytes hm

theorem Meets.look {act : Disk ν → Except Errno (α × Disk ν)}
    (h : ∀ d a d', act d = .ok (a, d') → d' = d) :
    Meets P (Durable.call act fun _ d => d : Prog ν ε _) (fun _ => P) E P := by
  refine .call ?_ ?_ ?_ ?_
  · exact fun d a d' hd ha => h d a d' ha ▸ hd
  · exact fun d _ hd _ => hd
  · exact fun d _ _ hd _ => hd
  · exact fun d _ hd => hd

theorem Meets.inspect : Meets P (Durable.inspect : Prog ν ε _) (fun _ => P) E P := by
  refine .look fun d a d' h => ?_
  obtain ⟨-, rfl⟩ := Prod.mk.inj (Except.ok.inj h)
  rfl

theorem Meets.openRead {name : ν} :
    Meets P (Durable.openRead name : Prog ν ε _) (fun _ => P) E P := by
  refine .look fun d a d' h => ?_
  split at h
  · obtain ⟨-, rfl⟩ := Prod.mk.inj (Except.ok.inj h)
    rfl
  · exact nomatch h

theorem Meets.openDirectory (hS : ∀ d, P d → S d) : Meets P (Durable.openDirectory : Prog ν ε _)
    (fun r d => P d ∧ (r = .ok () → d.present = true)) E S := by
  refine .call ?_ ?_ ?_ ?_
  · intro d a d' hd h
    split_ifs at h with hp
    obtain ⟨-, rfl⟩ := Prod.mk.inj (Except.ok.inj h)
    exact ⟨hd, fun _ => hp⟩
  · exact fun d _ hd _ => ⟨hd, fun h => by cases h⟩
  · exact fun d _ _ hd _ => ⟨hd, fun h => by cases h⟩
  · exact fun d _ hd => hS d hd

section

variable {d : Disk ν}

theorem openRead_meets {name : ν} : Meets (fun x => x = d) (Durable.openRead name : Prog ν ε _)
    (fun r x => x = d ∧ match r with
      | .ok file => d.entries name = some file
      | .error .noEntry => d.entries name = none
      | .error _ => True) E (fun x => x = d) := by
  refine .call ?_ ?_ ?_ ?_
  · rintro x file x' rfl h
    cases hentry : x.entries name with
    | none => rw [hentry] at h; exact nomatch h
    | some found =>
      rw [hentry] at h
      obtain ⟨rfl, rfl⟩ := Prod.mk.inj (Except.ok.inj h)
      exact ⟨rfl, rfl⟩
  · rintro x e rfl h
    cases hentry : x.entries name with
    | none =>
      rw [hentry] at h
      obtain rfl := Except.error.inj h
      exact ⟨rfl, rfl⟩
    | some found => rw [hentry] at h; exact nomatch h
  · rintro x e _ hx (rfl | rfl)
    · exact ⟨hx, trivial⟩
    · exact ⟨hx, trivial⟩
  · exact fun x _ hx => hx

end

theorem Meets.orFail {error : Errno → ε} {r : Except Errno α} (hok : ∀ a d, r = .ok a → P d → Q a d)
    (herror : ∀ e d, r = .error e → P d → E (error e) d) :
    Meets P (Durable.orFail error r : Prog ν ε α) Q E S := by
  cases r with
  | ok a => exact .ret fun d hd => hok a d rfl hd
  | error e => exact .fail fun d hd => herror e d rfl hd

theorem Meets.attempt {c : Prog ν ε (Except Errno α)} {error : Errno → ε} {f : α → Prog ν ε β}
    {R : β → Disk ν → Prop}
    (hc : Meets P c (fun r d => match r with
      | .ok a => Q a d
      | .error e => E (error e) d) E S)
    (hf : ∀ a, Meets (Q a) (f a) R E S) :
    Meets P (c >>= fun r => Durable.orFail error r >>= f) R E S := by
  refine hc.bind fun r => Meets.bind (.orFail ?_ ?_) hf
  · rintro a d rfl hd
    exact hd
  · rintro e d rfl hd
    exact hd

theorem Meets.check {c : Prog ν ε (Except Errno α)} {error : Errno → ε} {f : α → Prog ν ε β}
    {R : β → Disk ν → Prop} (hc : Meets P c (fun _ => P) (fun _ => P) P)
    (hf : ∀ a, Meets P (f a) R (fun _ => P) P) :
    Meets P (c >>= fun r => Durable.orFail error r >>= f) R (fun _ => P) P := by
  refine .attempt (Q := fun _ => P) (hc.weaken (fun _ h => h) (fun r d h => ?_) (fun _ _ h => h)
    fun _ h => h) hf
  cases r <;> exact h

theorem Meets.observe {d : Disk ν} {look : Disk ν → α} {error : Errno → ε} {f : α → Prog ν ε β}
    {R : β → Disk ν → Prop}
    (hf : Meets (fun x => x = d) (f (look d)) R (fun _ x => x = d) fun x => x = d) :
    Meets (fun x => x = d)
      ((Durable.call (fun x => .ok (look x, x)) fun _ x => x) >>= fun r =>
        Durable.orFail error r >>= f) R (fun _ x => x = d) fun x => x = d := by
  refine .attempt (Q := fun a x => x = d ∧ a = look d) (.call ?_ ?_ ?_ ?_) fun a => ?_
  · rintro x a x' rfl h
    obtain ⟨rfl, rfl⟩ := Prod.mk.inj (Except.ok.inj h)
    exact ⟨rfl, rfl⟩
  · exact fun x e hx h => nomatch h
  · exact fun x _ _ hx _ => hx
  · exact fun x _ hx => hx
  · rintro m ⟨hm, rfl⟩
    exact hf m hm

theorem Meets.settle {d : Disk ν} {error : Errno → ε} {a : α} (h : Q a d.settle) :
    Meets (fun x => x = d)
      (Durable.syncDirectory >>= fun r => Durable.orFail error r >>= fun _ => pure a) Q
      (fun _ x => x = d) fun x => x = d := by
  refine .attempt (Q := fun _ x => x = d.settle) (.call ?_ ?_ ?_ ?_) fun _ => .ret fun x hx => ?_
  · rintro x _ x' rfl h
    exact (Prod.mk.inj (Except.ok.inj h)).2.symm
  · exact fun x e _ h => nomatch h
  · exact fun x _ _ hx _ => hx
  · exact fun x _ hx => hx
  · exact hx ▸ h

theorem Meets.attemptLast {c : Prog ν ε (Except Errno α)} {error : Errno → ε}
    (hc : Meets P c (fun r d => match r with
      | .ok a => Q a d
      | .error e => E (error e) d) E S) : Meets P (c >>= Durable.orFail error) Q E S := by
  refine hc.bind fun r => .orFail ?_ ?_
  · rintro a d rfl hd
    exact hd
  · rintro e d rfl hd
    exact hd

theorem Meets.guarded {body : Prog ν ε α} {cleanup : Prog ν ε (Except Errno Unit)}
    {F : ε → Disk ν → Prop} (hbody : Meets P body Q F S)
    (hcleanup : ∀ e, Meets (F e) cleanup (fun _ => E e) (fun _ => S) S) :
    Meets P (Durable.guarded body cleanup) Q E S := by
  intro m hm
  have hrun := hbody m hm
  rw [Durable.guarded]
  cases hr : body m with
  | ok a m' => rw [hr] at hrun; exact hrun
  | error halt m' =>
    rw [hr] at hrun
    cases halt with
    | stopped => exact hrun
    | failed e =>
      have hclean := hcleanup e m' hrun
      dsimp only
      cases hc : cleanup m' with
      | ok _ m'' => rw [hc] at hclean; exact hclean
      | error halt m'' =>
        rw [hc] at hclean
        cases halt with
        | failed _ => exact hclean
        | stopped => exact hclean

end

end Durable
