import TalkSphere.RecordCodec
import TalkSphere.Retention
import TalkSphere.Selection

/-! The owner of a local publication. It holds the current revision and a storage of its own,
hands out snapshots that pin a revision, and stops serving when it does not know what the
storage holds. -/

namespace TalkSphere.Board

open Json (Tree)
open Outcome (bind_ok)
open Retention (Held Onward)
open Std (TreeMap)

/-- A shared value, with the address that tells it from equal ones. -/
structure Shared (α : Type) where
  address : Nat
  value : α

structure Snapshot where
  publisher : IdentityId
  board : List UInt8
  data : Option (Shared Prepared)
  domain : Nat

/-- A storage adapter. -/
structure Persistence (σ : Type) where
  load : σ → Except Error (Option Record) × σ
  commit : σ → Record → Except Error Unit × σ

structure Provider where
  authority : Authority
  limits : Limits
  publisher : IdentityId
  domain : Nat

structure State (σ : Type) where
  storage : σ
  uncertain : Bool := false
  current : Option Snapshot := none
  /-- The addresses of the revisions, as weak references. -/
  pins : List Nat := []
  /-- The next address, and the answers of the storage to commits, newest first. -/
  next : Nat := 0
  commits : List (Except Error Unit) := []

namespace State

variable {σ : Type}

def data (s : State σ) : Option (Shared Prepared) := s.current.bind (·.data)

def own (s : State σ) : Held := fun r => if s.data.map (·.address) = some r then 1 else 0

/-- The references to a revision: the owner's and those of the callers. -/
def strong (s : State σ) (held : Held) (r : Nat) : Nat := s.own r + held r

def retain (s : State σ) (held : Held) : State σ :=
  { s with pins := s.pins.filter fun r => 0 < s.strong held r }

/-- The revision that only the owner refers to, and that a replacement releases. -/
def released (s : State σ) (held : Held) : Option Nat :=
  (s.data.map (·.address)).filter fun r => s.strong held r = 1

def full (s : State σ) (held : Held) (limits : Limits) : Prop :=
  s.pins.length - (s.released held).toList.length ≥ limits.snapshots

instance (s : State σ) (held : Held) (limits : Limits) : Decidable (s.full held limits) :=
  inferInstanceAs (Decidable (_ ≥ _))

/-- A new revision gets an address and a pin. -/
def pin (s : State σ) : State σ := { s with pins := s.pins ++ [s.next], next := s.next + 1 }

def commit (P : Persistence σ) (s : State σ) (r : Record) : Except Error Unit × State σ :=
  let (answer, storage) := P.commit s.storage r
  (answer, { s with storage := storage, commits := answer :: s.commits })

end State

namespace Provider

variable {σ : Type} (p : Provider) (P : Persistence σ) (env : Surroundings) (context : Context)

def snapshot (data : Shared Prepared) : Snapshot where
  publisher := p.publisher
  board := data.value.board.document.source
  data := some data
  domain := p.domain

def new (publisher : IdentityId) (authority : Authority) (limits : Limits) (domain : Nat) :
    Except Stop Provider := do
  lift limits.validate
  .ok ⟨authority, limits, publisher, domain⟩

def openWith (publisher : IdentityId) (authority : Authority) (limits : Limits) (domain : Nat)
    (caps : Capabilities) (storage : σ) : Except Stop (Provider × State σ) := do
  let owner ← new publisher authority limits domain
  let (loaded, storage) := P.load storage
  match ← lift loaded with
  | none => .ok (owner, { storage := storage })
  | some record =>
    if record.publisher ≠ publisher then refuse .denied
    else
      let value ← record.prepare limits caps
      let s : State σ := { storage := storage }
      .ok (owner, { s.pin with current := some (owner.snapshot ⟨s.next, value⟩) })

/-- The end of a recovery: one more check, and what was found is current. -/
def adopt (s : State σ) (current : Option Snapshot) : Except Stop Unit × State σ :=
  match context.check p.authority (env.moment 1) p.publisher .publish 0 with
  | .error e => (.error e, s)
  | .ok () => (.ok (), { s with current := current, uncertain := false })

def recover (s : State σ) : Except Stop Unit × State σ :=
  match context.check p.authority (env.moment 0) p.publisher .publish 0 with
  | .error e => (.error e, s)
  | .ok () =>
    let (loaded, storage) := P.load s.storage
    let s := { s with storage := storage }
    match loaded with
    | .error e => (.error (.refused e), s)
    | .ok none => p.adopt env context s none
    | .ok (some record) =>
      if record.publisher ≠ p.publisher then (refuse .denied, s)
      else match record.prepare p.limits (env.caps 0) with
        | .error e => (.error e, s)
        | .ok value =>
          let s := s.retain (env.held 0)
          if s.full (env.held 1) p.limits then (refuse .limit, s)
          else p.adopt env context s.pin (some (p.snapshot ⟨s.next, value⟩))

/-- What `publish` checks before it looks at the owner's state. -/
def vet (candidate : Prepared) : Except Stop Prepared := do
  context.check p.authority (env.moment 0) p.publisher .publish candidate.bytes
  if candidate.publisher ≠ p.publisher then refuse .denied
  else if candidate.bytes > p.limits.publicationBytes then refuse .limit
  else
    let definitions := candidate.definitions.map fun _ d => d.document.source
    let candidate ← Prepared.new p.publisher candidate.board.document.source definitions p.limits
      (env.caps 0)
    context.check p.authority (env.moment 1) p.publisher .publish candidate.bytes
    .ok candidate

/-- What `publish` checks last before it commits. -/
def confirm (candidate : Prepared) : Except Stop Unit := do
  candidate.assess (env.caps 1)
  context.check p.authority (env.moment 2) p.publisher .publish candidate.bytes

def publish (s : State σ) (candidate : Prepared) : Except Stop Snapshot × State σ :=
  match p.vet env context candidate with
  | .error e => (.error e, s)
  | .ok candidate =>
    if s.uncertain then (refuse .unknown, s)
    else
      let s := s.retain (env.held 0)
      if s.full (env.held 1) p.limits then (refuse .limit, s)
      else match p.confirm env context candidate with
        | .error e => (.error e, s)
        | .ok () =>
          match s.commit P (Record.fromPrepared candidate) with
          | (.error e, s) =>
            (.error (.refused e), if e = .unknown then { s with uncertain := true } else s)
          | (.ok (), s) =>
            let snapshot := p.snapshot ⟨s.next, candidate⟩
            (.ok snapshot, { s.pin with current := some snapshot })

def read (s : State σ) : Except Stop Snapshot := do
  context.check p.authority (env.moment 0) p.publisher .read 0
  if s.uncertain then refuse .unknown
  else
    let snapshot ← need .missing s.current
    context.check p.authority (env.moment 1) p.publisher .read snapshot.board.length
    .ok snapshot

/-- The terms of a selection are compared with the current ones; the length of their text is
that of the JSON library. -/
def currentSelection (textBytes : Tree → Nat) (s : State σ) (selected : Selection) :
    Except Stop Unit := do
  context.check p.authority (env.moment 0) p.publisher .select (textBytes selected.offering.source)
  if selected.publisher ≠ p.publisher then refuse .denied
  else if s.uncertain then refuse .unknown
  else
    let data ← need .stale s.data
    let id := selected.offering.id
    if data.value.board.offerings[id]?.map (·.source) ≠ some selected.offering.source ∨
        data.value.definitions[id]?.map (·.document.value) ≠
          some selected.definition.document.value then refuse .stale
    else .ok ()

/-! What the operations can do. -/

/-- Nothing has happened to the publication, and no pin that is still needed is gone. -/
structure Steady (s s' : State σ) : Prop where
  current : s'.current = s.current
  pins : ∀ r ∈ s.pins, 0 < s.strong (env.held 0) r → r ∈ s'.pins

inductive Published (s : State σ) : Except Stop Snapshot → State σ → Prop
  | refused {e : Stop} {s' : State σ} (hsteady : Steady env s s') (hstorage : s'.storage = s.storage)
      (huncertain : s'.uncertain = s.uncertain) (hcommits : s'.commits = s.commits) :
      Published s (.error e) s'
  | failed {candidate : Prepared} {e : Error} {s' : State σ} (hsteady : Steady env s s')
      (hopen : s.uncertain = false)
      (hcommit : P.commit s.storage (Record.fromPrepared candidate) = (.error e, s'.storage))
      (huncertain : s'.uncertain = decide (e = .unknown))
      (hcommits : s'.commits = .error e :: s.commits) : Published s (.error (.refused e)) s'
  | done {candidate : Prepared} {storage : σ} (hopen : s.uncertain = false)
      (hpublisher : candidate.publisher = p.publisher)
      (hroom : ¬ (s.retain (env.held 0)).full (env.held 1) p.limits)
      (hcommit : P.commit s.storage (Record.fromPrepared candidate) = (.ok (), storage)) :
      Published s (.ok (p.snapshot ⟨s.next, candidate⟩))
        { (s.retain (env.held 0)).pin with
          storage := storage
          commits := .ok () :: s.commits
          current := some (p.snapshot ⟨s.next, candidate⟩) }

inductive Recovered (s : State σ) : Except Stop Unit → State σ → Prop
  | refused {e : Stop} {s' : State σ} (hsteady : Steady env s s')
      (hstorage : s'.storage = s.storage ∨ s'.storage = (P.load s.storage).2)
      (huncertain : s'.uncertain = s.uncertain) (hcommits : s'.commits = s.commits) :
      Recovered s (.error e) s'
  | cleared {storage : σ} (hload : P.load s.storage = (.ok none, storage)) :
      Recovered s (.ok ()) { s with storage := storage, current := none, uncertain := false }
  | found {record : Record} {value : Prepared} {storage : σ}
      (hload : P.load s.storage = (.ok (some record), storage))
      (hpublisher : record.publisher = p.publisher)
      (hprepare : record.prepare p.limits (env.caps 0) = .ok value)
      (hroom : ¬ (s.retain (env.held 0)).full (env.held 1) p.limits) :
      Recovered s (.ok ())
        { (s.retain (env.held 0)).pin with
          storage := storage
          current := some (p.snapshot ⟨s.next, value⟩)
          uncertain := false }

/-- What opening a storage leaves. -/
inductive Opened (storage : σ) (caps : Capabilities) : State σ → Prop
  | empty {storage' : σ} (hload : P.load storage = (.ok none, storage')) :
      Opened storage caps { storage := storage' }
  | found {record : Record} {value : Prepared} {storage' : σ}
      (hload : P.load storage = (.ok (some record), storage'))
      (hpublisher : record.publisher = p.publisher)
      (hprepare : record.prepare p.limits caps = .ok value) :
      Opened storage caps
        { storage := storage', pins := [0], next := 1, current := some (p.snapshot ⟨0, value⟩) }

variable {p P env context} {s : State σ}

theorem openWith_opened {publisher : IdentityId} {authority : Authority} {limits : Limits}
    {domain : Nat} {caps : Capabilities} {storage : σ}
    (h : openWith P publisher authority limits domain caps storage = .ok (p, s)) :
    limits.validate = .ok () ∧ p = ⟨authority, limits, publisher, domain⟩ ∧
      Opened p P storage caps s := by
  obtain ⟨owner, hnew, h⟩ := bind_ok.mp h
  obtain ⟨⟨⟩, hvalidate, hnew⟩ := bind_ok.mp hnew
  obtain rfl := Except.ok.inj hnew
  rcases hload : P.load storage with ⟨loaded, storage'⟩
  rw [hload] at h
  obtain ⟨found, hfound, h⟩ := bind_ok.mp h
  obtain rfl := lift_ok.mp hfound
  cases found with
  | none =>
    obtain ⟨rfl, rfl⟩ := Prod.mk.inj (Except.ok.inj h)
    exact ⟨lift_ok.mp hvalidate, rfl, .empty hload⟩
  | some record =>
    obtain ⟨hpublisher, h⟩ := guard_ok.mp h
    obtain ⟨value, hprepare, h⟩ := bind_ok.mp h
    obtain ⟨rfl, rfl⟩ := Prod.mk.inj (Except.ok.inj h)
    exact ⟨lift_ok.mp hvalidate, rfl, .found hload (not_not.mp hpublisher) hprepare⟩

theorem steady_refl : Steady env s s := ⟨rfl, fun _ h _ => h⟩

theorem steady_retain : Steady env s (s.retain (env.held 0)) where
  current := rfl
  pins r hr halive := List.mem_filter.mpr ⟨hr, by simpa using halive⟩

theorem vet_ok {candidate value : Prepared} (h : p.vet env context candidate = .ok value) :
    ∃ board definitions caps,
      Prepared.new p.publisher board definitions p.limits caps = .ok value := by
  obtain ⟨⟨⟩, -, h⟩ := bind_ok.mp h
  obtain ⟨-, h⟩ := guard_ok.mp h
  obtain ⟨-, h⟩ := guard_ok.mp h
  obtain ⟨c, hc, h⟩ := bind_ok.mp h
  obtain ⟨⟨⟩, -, h⟩ := bind_ok.mp h
  obtain rfl := Except.ok.inj h
  exact ⟨_, _, _, hc⟩

theorem publish_published {candidate : Prepared} {reply : Except Stop Snapshot} {s' : State σ}
    (h : p.publish P env context s candidate = (reply, s')) : Published p P env s reply s' := by
  rw [publish] at h
  split at h
  case h_1 =>
    obtain ⟨rfl, rfl⟩ := Prod.mk.inj h
    exact .refused steady_refl rfl rfl rfl
  case h_2 candidate' hvet =>
    by_cases huncertain : s.uncertain = true
    · rw [if_pos huncertain] at h
      obtain ⟨rfl, rfl⟩ := Prod.mk.inj h
      exact .refused steady_refl rfl rfl rfl
    rw [if_neg huncertain] at h
    have hopen : s.uncertain = false := Bool.eq_false_iff.mpr huncertain
    dsimp only at h
    split_ifs at h with hfull
    · obtain ⟨rfl, rfl⟩ := Prod.mk.inj h
      exact .refused steady_retain rfl rfl rfl
    split at h
    case h_1 =>
      obtain ⟨rfl, rfl⟩ := Prod.mk.inj h
      exact .refused steady_retain rfl rfl rfl
    case h_2 =>
      split at h
      case h_1 e s₁ hcommit =>
        obtain ⟨rfl, rfl⟩ := Prod.mk.inj h
        obtain ⟨hanswer, rfl⟩ := Prod.mk.inj hcommit
        by_cases he : e = .unknown
        · rw [if_pos he]
          exact .failed ⟨rfl, steady_retain.pins⟩ hopen (Prod.ext hanswer rfl) (by simp [he])
            (congrArg (· :: s.commits) hanswer)
        · rw [if_neg he]
          exact .failed ⟨rfl, steady_retain.pins⟩ hopen (Prod.ext hanswer rfl)
            (hopen.trans (by simp [he])) (congrArg (· :: s.commits) hanswer)
      case h_2 s₁ hcommit =>
        obtain ⟨rfl, rfl⟩ := Prod.mk.inj h
        obtain ⟨hanswer, rfl⟩ := Prod.mk.inj hcommit
        have hcommits := congrArg (· :: s.commits) hanswer
        obtain ⟨_, _, _, hmade⟩ := vet_ok hvet
        obtain ⟨-, -, -, -, -, -, -, -, hpublisher⟩ := Prepared.new_ok hmade
        have hdone := Published.done hopen hpublisher hfull (Prod.ext hanswer rfl)
        rw [← hcommits] at hdone
        exact hdone

theorem recover_recovered {reply : Except Stop Unit} {s' : State σ}
    (h : p.recover P env context s = (reply, s')) : Recovered p P env s reply s' := by
  rw [recover] at h
  split at h
  case h_1 =>
    obtain ⟨rfl, rfl⟩ := Prod.mk.inj h
    exact .refused steady_refl (.inl rfl) rfl rfl
  case h_2 =>
    have hretain : ∀ r ∈ s.pins, 0 < s.strong (env.held 0) r → r ∈ (s.retain (env.held 0)).pins :=
      steady_retain.pins
    rcases hload : P.load s.storage with ⟨loaded, storage⟩
    have hstorage : storage = (P.load s.storage).2 := by rw [hload]
    rw [hload] at h
    dsimp only at h
    split at h
    case h_1 =>
      obtain ⟨rfl, rfl⟩ := Prod.mk.inj h
      exact .refused ⟨rfl, fun _ hr _ => hr⟩ (.inr hstorage) rfl rfl
    case h_2 =>
      rw [adopt] at h
      split at h
      case h_1 =>
        obtain ⟨rfl, rfl⟩ := Prod.mk.inj h
        exact .refused ⟨rfl, fun _ hr _ => hr⟩ (.inr hstorage) rfl rfl
      case h_2 =>
        obtain ⟨rfl, rfl⟩ := Prod.mk.inj h
        exact .cleared hload
    case h_3 record =>
      by_cases hpublisher : record.publisher = p.publisher
      case neg =>
        rw [if_pos hpublisher] at h
        obtain ⟨rfl, rfl⟩ := Prod.mk.inj h
        exact .refused ⟨rfl, fun _ hr _ => hr⟩ (.inr hstorage) rfl rfl
      rw [if_neg (not_not.mpr hpublisher)] at h
      split at h
      case h_1 =>
        obtain ⟨rfl, rfl⟩ := Prod.mk.inj h
        exact .refused ⟨rfl, fun _ hr _ => hr⟩ (.inr hstorage) rfl rfl
      case h_2 value hprepare =>
        split_ifs at h with hfull
        · obtain ⟨rfl, rfl⟩ := Prod.mk.inj h
          exact .refused ⟨rfl, hretain⟩ (.inr hstorage) rfl rfl
        rw [adopt] at h
        split at h
        case h_1 =>
          obtain ⟨rfl, rfl⟩ := Prod.mk.inj h
          exact .refused ⟨rfl, fun r hr halive => List.mem_append_left _ (hretain r hr halive)⟩
            (.inr hstorage) rfl rfl
        case h_2 =>
          obtain ⟨rfl, rfl⟩ := Prod.mk.inj h
          exact .found hload hpublisher hprepare hfull

end Provider

end TalkSphere.Board
