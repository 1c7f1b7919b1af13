import TalkSphere.Anchoring
import TalkSphere.RecordCodec

/-! The durable store of the board: a directory with one record and a file in the making. The
store may be opened, read and written in any order, every system call may fail or be the last
one, and the power may be lost between any two operations. -/

namespace TalkSphere.Board.FileStore

open Durable

inductive Name
  | board
  | pending
  deriving DecidableEq, Repr

def storage : Stop := .refused .storage

def unknown : Stop := .refused .unknown

/-- A file that cannot be inspected, or one that is open to others. -/
def protection : Errno → Stop
  | .access => .refused .denied
  | _ => storage

def pathErrors : PathErrors Stop where
  empty := .refused .invalid
  unsupported := .refused .invalid
  opening _ := storage
  making _ := storage
  syncing := unknown

def pendingErrors : ClearErrors Stop where
  opening _ := storage
  check := protection
  removing _ := storage
  syncing := unknown

def commitErrors : Errors Stop where
  create _ := storage
  check := protection
  write := storage
  sync := storage
  rename _ := storage
  directory := unknown
  before := by
    have hprotection : ∀ x, protection x ≠ unknown := by
      intro x
      cases x <;> decide
    rintro e (⟨x, rfl⟩ | ⟨x, rfl⟩ | rfl | rfl | ⟨x, rfl⟩)
    · decide
    · exact hprotection x
    · decide
    · decide
    · decide

/-- The directory, the lock and what is left of an interrupted commit. -/
def openStore (path : List Component) (limits : Limits) (held : Bool) : Prog Name Stop Unit := do
  ofExcept (lift limits.validate)
  openPath pathErrors path
  orFail protection (← inspect)
  orFail (fun _ => storage) (← inspect)
  orFail protection (← inspect)
  if held then fail (.refused .denied)
  else
    orFail (fun _ => .refused .denied) (← inspect)
    clear .pending pendingErrors

def load (limits : Limits) : Prog Name Stop (Option Record) := do
  match ← openRead .board with
  | .ok file =>
    orFail protection (← inspect)
    let maximum ← ofExcept (RecordCodec.maximum limits)
    let length ← orFail (fun _ => storage) (← size file)
    if length > maximum then fail (.refused .limit)
    else
      let bytes ← orFail (fun _ => storage) (← read file (maximum + 1))
      let record ← ofExcept (RecordCodec.decode bytes limits)
      orFail (fun _ => unknown) (← syncDirectory)
      pure (some record)
  | .error .noEntry => pure none
  | .error _ => fail storage

def commit (limits : Limits) (r : Record) : Prog Name Stop Unit := do
  let bytes ← ofExcept (RecordCodec.encode r limits)
  replaceFile .pending .board true commitErrors bytes

/-! Runs of a store. -/

structure World where
  disk : Disk Name
  /-- The limits of the store that is open and holds the lock. -/
  store : Option Limits
  log : List (Durable.Event Record)

inductive Label
  | opened (reply : Reply Stop Unit)
  | loaded (reply : Reply Stop (Option Record))
  | committed (r : Record) (reply : Reply Stop Unit)
  | closed
  | powerLost

def seen (log : List (Durable.Event Record)) :
    Reply Stop (Option Record) → List (Durable.Event Record)
  | .ok (some r) => .seen r :: log
  | _ => log

inductive Step : World → Label → World → Prop
  | opened {w : World} {path : List Component} {limits : Limits} {faults : List Fault}
      {reply : Reply Stop Unit} {disk : Disk Name}
      (hrun : run (openStore path limits w.store.isSome) w.disk faults = (reply, disk)) :
      Step w (.opened reply) { w with
        disk := disk
        store := if reply.acknowledged then some limits else reply.keep w.store }
  | loaded {w : World} {limits : Limits} {faults : List Fault}
      {reply : Reply Stop (Option Record)} {disk : Disk Name} (hstore : w.store = some limits)
      (hrun : run (load limits) w.disk faults = (reply, disk)) :
      Step w (.loaded reply) ⟨disk, reply.keep w.store, seen w.log reply⟩
  | committed {w : World} {limits : Limits} {r : Record} {faults : List Fault}
      {reply : Reply Stop Unit} {disk : Disk Name} (hstore : w.store = some limits)
      (hrun : run (commit limits r) w.disk faults = (reply, disk)) :
      Step w (.committed r reply) ⟨disk, reply.keep w.store,
        .attempt r (disk.entries .board ≠ w.disk.entries .board) reply.acknowledged :: w.log⟩
  | closed {w : World} : Step w .closed { w with store := none }
  | powerLost {w : World} {disk : Disk Name} (hsurvives : Survives w.disk disk) :
      Step w .powerLost { w with disk := disk, store := none }

def World.fresh (present : Bool) : World := ⟨.blank present, none, []⟩

def Label.opens : Label → Bool
  | .opened reply => reply.acknowledged
  | _ => false

/-! What the operations do to the disk. -/

section

variable {d : Disk Name} {limits : Limits} {r : Record}

theorem openStore_meets (ha : Durable.Alive d) (path : List Component) (held : Bool) :
    Meets (fun x => x = d) (openStore path limits held) (fun _ => Entered [.pending] d)
      (fun _ => Kept [.pending] d) (Kept [.pending] d) := by
  refine .ofExcept (fun _ _ => ?_) fun _ x _ h => h ▸ Kept.refl _ x
  refine .bind (openPath_meets path) fun _ => .opened ha fun d ha => ?_
  refine .check .inspect fun _ => .check .inspect fun _ => .check .inspect fun _ => ?_
  split_ifs
  · exact .fail fun _ h => h
  · refine .check .inspect fun _ => .start fun x hx => ?_
    exact (clear_meets (hx.alive ha) List.mem_cons_self).weaken (fun _ h => h)
      (fun _ _ h => hx.trans h) (fun _ _ h => hx.trans h) fun _ h => hx.trans h

/-- A load has no effect but to make durable what it returns, and that is what the one name of
the record refers to. -/
theorem load_meets : Meets (fun x => x = d) (load limits)
    (fun result x => match result with
      | none => x = d ∧ d.entries .board = none
      | some r => x = d.settle ∧
        ∃ file, d.entries .board = some file ∧ RecordCodec.decode (d.contents file) limits = .ok r)
    (fun _ x => x = d) (fun x => x = d) := by
  refine .bind openRead_meets fun result => ?_
  cases result with
  | error e =>
    cases e with
    | noEntry => exact .ret fun x h => h
    | _ => exact .fail fun x h => h.1
  | ok file =>
    refine .start fun x hx => ?_
    obtain ⟨rfl, hfile⟩ := hx
    refine .check .inspect fun _ => .ofExcept (fun maximum _ => ?_) fun _ _ _ h => h
    refine .observe ?_
    split_ifs with hsize
    · exact .fail fun _ h => h
    refine .observe ?_
    rw [List.take_of_length_le (by omega)]
    refine .ofExcept (fun record hrecord => ?_) fun _ _ _ h => h
    exact .settle ⟨rfl, file, hfile, hrecord⟩

/-- Without faults, a complete record is found. -/
theorem load_run {file maximum : Nat} (hfile : d.entries .board = some file)
    (hmaximum : RecordCodec.maximum limits = .ok maximum)
    (hlength : (d.contents file).length ≤ maximum)
    (hr : RecordCodec.decode (d.contents file) limits = .ok r) :
    run (load limits) d [] = (.ok (some r), d.settle) := by
  have htake : (d.contents file).take (maximum + 1) = d.contents file :=
    List.take_of_length_le (by omega)
  simp [run, load, openRead, inspect, size, Durable.read, syncDirectory, call, orFail,
    Durable.ofExcept, bind, EStateM.bind, pure, EStateM.pure, hfile, hmaximum, hlength.not_gt,
    htake, hr]

theorem commit_meets (ha : Durable.Alive d) : Meets (fun x => x = d) (commit limits r)
    (fun _ x => (RecordCodec.Fitting r limits ∧
      Replaced .pending .board true (RecordCodec.layout r) d x) ∧
        ∀ name, x.survivors name = [x.entries name])
    (fun e x => Untouched .pending d x ∨ e = unknown ∧ RecordCodec.Fitting r limits ∧
      Replaced .pending .board true (RecordCodec.layout r) d x)
    (fun x => Untouched .pending d x ∨ RecordCodec.Fitting r limits ∧
      Replaced .pending .board true (RecordCodec.layout r) d x) := by
  refine .ofExcept (fun bytes hbytes => ?_) fun e x _ hx => .inl (hx ▸ Untouched.refl _ x)
  obtain ⟨hfits, rfl⟩ := RecordCodec.encode_ok.mp hbytes
  refine (replaceFile_meets (by decide) ha).weaken (fun _ h => h) ?_ ?_ ?_
  · exact fun _ x h => ⟨⟨hfits, h.1⟩, h.2⟩
  · rintro e x (⟨-, hx⟩ | ⟨he, hx⟩)
    · exact .inl hx
    · exact .inr ⟨he, hfits, hx⟩
  · rintro x (hx | hx)
    · exact .inl hx
    · exact .inr ⟨hfits, hx⟩

theorem commit_run (ha : Durable.Alive d) {d' : Disk Name} {faults : List Fault} {reply : Reply Stop Unit}
    (hrun : run (commit limits r) d faults = (reply, d')) :
    Attempted .pending .board true (RecordCodec.layout r) d d' reply.acknowledged ∧
      (d'.entries .board ≠ d.entries .board → RecordCodec.Fitting r limits) := by
  have hmeets := (commit_meets ha).run rfl hrun
  have huntouched : Untouched .pending d d' → d'.entries .board ≠ d.entries .board →
      RecordCodec.Fitting r limits :=
    fun hu hne => absurd (hu.keeps Name.board (by decide)).entry hne
  cases reply with
  | ok _ => exact ⟨.acknowledged hmeets.1.2 hmeets.2, fun _ => hmeets.1.1⟩
  | failed e =>
    obtain hu | ⟨-, hfits, hr⟩ := hmeets
    · exact ⟨.untouched hu, huntouched hu⟩
    · exact ⟨.replaced hr, fun _ => hfits⟩
  | stopped =>
    obtain hu | ⟨hfits, hr⟩ := hmeets
    · exact ⟨.untouched hu, huntouched hu⟩
    · exact ⟨.replaced hr, fun _ => hfits⟩

end

/-! Every run. -/

structure Inv (w : World) : Prop where
  tracks : Tracks RecordCodec.layout .board w.disk w.log
  alive : Durable.Alive w.disk
  anchored : w.store ≠ none → false ∉ w.disk.presence
  fits : ∀ r a, .attempt r true a ∈ w.log → ∃ limits, RecordCodec.Fitting r limits

section

variable {w w' : World} {disk : Disk Name} {limits : Limits} {r : Record} {present : Bool}

theorem inv_fresh (present : Bool) : Inv (.fresh present) where
  tracks := tracks_blank _ _ present
  alive _ := List.mem_singleton_self _
  anchored h := absurd rfl h
  fits _ _ h := nomatch h

theorem Inv.opened (h : Inv w) (hkept : Kept [.pending] w.disk disk) {store : Option Limits}
    (hstore : store ≠ none → false ∉ disk.presence) :
    Inv { w with disk := disk, store := store } where
  tracks := h.tracks.keeps (hkept.keeps _ (by decide))
  alive := hkept.alive h.alive
  anchored := hstore
  fits := h.fits

theorem Inv.decoded (h : Inv w) {file : Nat} (hfile : w.disk.entries .board = some file)
    (hr : RecordCodec.decode (w.disk.contents file) limits = .ok r) :
    ∃ r₀, Possible RecordCodec.layout w.log (some r₀) ∧ r.Same r₀ ∧
      w.disk.contents file = RecordCodec.layout r₀ := by
  obtain ⟨y, hy, hmap⟩ := h.tracks.now
  rw [hfile] at hmap
  obtain ⟨r₀, rfl, hlayout⟩ := Option.map_eq_some_iff.mp hmap
  obtain ⟨newer, a, older, hlog, -⟩ := hy.some
  obtain ⟨first, hfits⟩ := h.fits r₀ a (by simp [hlog])
  rw [← hlayout] at hr
  exact ⟨r₀, hy, RecordCodec.decode_same hfits hr, hlayout.symm⟩

theorem Inv.seen (h : Inv w) (hstore : w.store ≠ none) {file : Nat}
    (hfile : w.disk.entries .board = some file)
    (hr : RecordCodec.decode (w.disk.contents file) limits = .ok r) :
    Inv ⟨w.disk.settle, w.store,
      .seen r :: w.log⟩ := by
  obtain ⟨r₀, hpossible, hsame, hcontents⟩ := h.decoded hfile hr
  have hsync := (Keeps.refl Name.board w.disk).sync h.tracks.live
  constructor
  case tracks =>
    refine (h.tracks.keeps hsync).settle rfl (h.anchored hstore) ⟨some r₀, ⟨?_, hpossible⟩, ?_⟩
    · exact congrArg some (RecordCodec.layout_congr hsame).symm
    · exact (congrArg some hcontents.symm).trans (congrArg (Option.map w.disk.contents) hfile).symm
  case alive => exact fun name => List.mem_singleton_self _
  case anchored => exact h.anchored
  case fits =>
    intro r' a ha
    obtain heq | hin := List.mem_cons.mp ha
    · exact nomatch heq
    · exact h.fits r' a hin

theorem Inv.committed (h : Inv w) (hopen : w.store ≠ none) {a : Bool}
    (hattempt : Attempted .pending .board true (RecordCodec.layout r) w.disk disk a)
    (hfits : disk.entries .board ≠ w.disk.entries .board → RecordCodec.Fitting r limits)
    (store : Option Limits) : Inv ⟨disk, store,
      .attempt r (disk.entries .board ≠ w.disk.entries .board) a :: w.log⟩ where
  tracks := h.tracks.attempted hattempt (by decide) fun _ => h.anchored hopen
  alive := hattempt.alive h.alive
  anchored _ hp := h.anchored hopen (hattempt.presence hp)
  fits r' a ha := by
    obtain heq | hin := List.mem_cons.mp ha
    · obtain ⟨rfl, hflag, -⟩ := Durable.Event.attempt.inj heq
      exact ⟨limits, hfits (of_decide_eq_true hflag.symm)⟩
    · exact h.fits r' a hin

theorem inv_step {l : Label} (h : Inv w) (hl : Anchored World.disk Label.opens w l)
    (hstep : Step w l w') : Inv w' := by
  cases hstep with
  | @opened path limits faults reply disk hrun =>
    obtain ⟨hkept, hopened⟩ := opened_run (openStore_meets h.alive path _) hrun
    refine h.opened hkept fun hstore => ?_
    cases reply with
    | ok _ => exact hopened rfl (hl rfl)
    | failed e => exact fun hp => h.anchored hstore (hkept.presence hp)
    | stopped => exact absurd rfl hstore
  | @loaded limits faults reply disk hstore hrun =>
    have hmeets := load_meets.run rfl hrun
    have hopen : w.store ≠ none := by simp [hstore]
    cases reply with
    | failed e =>
      have hdisk : disk = w.disk := hmeets
      subst hdisk
      exact h
    | stopped =>
      have hdisk : disk = w.disk := hmeets
      subst hdisk
      exact ⟨h.tracks, h.alive, fun hs => absurd rfl hs, h.fits⟩
    | ok result =>
      cases result with
      | none =>
        obtain ⟨rfl, -⟩ := hmeets
        exact h
      | some r =>
        obtain ⟨rfl, file, hfile, hr⟩ := hmeets
        exact h.seen hopen hfile hr
  | @committed limits r faults reply disk hstore hrun =>
    have hopen : w.store ≠ none := by simp [hstore]
    obtain ⟨hattempt, hfits⟩ := commit_run h.alive hrun
    exact h.committed hopen hattempt hfits _
  | closed => exact ⟨h.tracks, h.alive, fun hs => absurd rfl hs, h.fits⟩
  | powerLost hsurvives =>
    refine ⟨h.tracks.survives hsurvives, fun name => ?_, fun hs => absurd rfl hs, h.fits⟩
    exact hsurvives.survivors name ▸ List.mem_singleton_self _

end

/-- What the store promises in a state. -/
structure Consistent (w : World) : Prop where
  /-- Nothing is found only where nothing was acknowledged. -/
  empty : ∀ w', Step w (.loaded (.ok none)) w' → Unacknowledged w.log
  /-- What is found is the last acknowledged record or a later one, and it is found complete
  under the record's own name. -/
  complete : ∀ r w', Step w (.loaded (.ok (some r))) w' →
    (∃ newer r₀ a older, w.log = newer ++ .attempt r₀ true a :: older ∧ Unacknowledged newer ∧
      r.Same r₀) ∧
    Refers .board (RecordCodec.layout r) w.disk
  /-- A commit that is known to have failed has changed nothing. -/
  refused : ∀ r e w', Step w (.committed r (.failed e)) w' → e ≠ unknown →
    w'.disk.entries .board = w.disk.entries .board ∧
      ∀ file, w.disk.entries .board = some file → w'.disk.contents file = w.disk.contents file
  /-- What was found once stays until another record is installed. -/
  kept : ∀ newer r older, w.log = newer ++ .seen r :: older → Uninstalled newer →
    Refers .board (RecordCodec.layout r) w.disk

theorem store_consistent {present : Bool} {w : World}
    (h : Reaches Step (Anchored World.disk Label.opens) (.fresh present) w) : Consistent w := by
  have hinv := h.inv (inv_fresh present) inv_step
  constructor
  case empty =>
    intro w' hstep
    cases hstep with
    | loaded hstore hrun =>
      obtain ⟨-, hnone⟩ := load_meets.run rfl hrun
      obtain ⟨y, hy, hmap⟩ := hinv.tracks.now
      rw [hnone] at hmap
      obtain rfl := Option.map_eq_none_iff.mp hmap
      exact hy.none
  case complete =>
    intro r w' hstep
    cases hstep with
    | loaded hstore hrun =>
      obtain ⟨-, file, hfile, hr⟩ := load_meets.run rfl hrun
      obtain ⟨r₀, hpossible, hsame, hcontents⟩ := hinv.decoded hfile hr
      obtain ⟨newer, a, older, hlog, hnewer⟩ := hpossible.some
      refine ⟨⟨newer, r₀, a, older, hlog, hnewer, hsame⟩, file, hfile, ?_⟩
      exact hcontents.trans (RecordCodec.layout_congr hsame).symm
  case refused =>
    intro r e w' hstep he
    cases hstep with
    | committed hstore hrun =>
      obtain hu | ⟨hunknown, -⟩ := (commit_meets hinv.alive).run rfl hrun
      · have hkeeps := hu.keeps Name.board (by decide)
        refine ⟨hkeeps.entry, fun file hfile => hkeeps.contents file ?_⟩
        exact (hinv.tracks.files file (hfile ▸ hinv.tracks.live)).2
      · exact absurd hunknown he
  case kept =>
    intro newer r older hlog hnewer
    have htracks := hinv.tracks
    rw [hlog] at htracks
    exact htracks.kept hnewer (.inl rfl)

/-! Where the directory itself may be lost, and where it may not. -/

def sampleRecord (byte : UInt8) : Record := ⟨⟨.replicate 32 0⟩, [byte], {("a", [byte, byte])}⟩

theorem sampleRecord_fits (byte : UInt8) : RecordCodec.Fitting (sampleRecord byte) {} where
  policy := by decide
  count := ⟨(by decide : 1 ≤ 1024), (by decide : 1 ≤ u32Max)⟩
  total := ⟨3, rfl, by decide⟩
  board := (by decide : 1 ≤ 1048576)
  entries e he := by
    obtain rfl : e = ("a", [byte, byte]) := List.mem_singleton.mp he
    exact ⟨(by decide : (utf8 "a").length ≤ 1048576), (by decide : 2 ≤ 1048576)⟩
  envelope := ⟨33566784, rfl, (by decide : 60 ≤ 33566784)⟩

def written (byte : UInt8) : Prog Name Stop Unit :=
  replaceFile .pending .board true commitErrors (RecordCodec.layout (sampleRecord byte))

theorem commit_sampleRecord (byte : UInt8) : commit {} (sampleRecord byte) = written byte := by
  rw [commit, RecordCodec.encode_ok.mpr ⟨sampleRecord_fits byte, rfl⟩]
  rfl

def remade (d : Disk Name) : Disk Name := { d with present := true, presence := [true] }

theorem acknowledged_commit_lost : ∃ w w', Reaches Step (fun _ _ => True) (.fresh false) w ∧
    .attempt (sampleRecord 1) true true ∈ w.log ∧ Step w (.loaded (.ok none)) w' := by
  let after := (run (written 1) .unanchored []).2
  have hfailed : run (openStore [.normal] {} false) (.blank false)
      [.none, .none, .none, .fails false []] = (.failed unknown, .unanchored) := rfl
  have hopened : run (openStore [.normal] {} false) .unanchored [] = (.ok (), .unanchored) := rfl
  have hcommitted : run (commit {} (sampleRecord 1)) .unanchored [] = (.ok (), after) := by
    rw [commit_sampleRecord]
    rfl
  have hlost : Survives after after.lost := survives_lost (by decide)
  have hreopened : run (openStore [.normal] {} false) after.lost [] = (.ok (), remade after.lost) :=
    rfl
  have hloaded : run (load {}) (remade after.lost) [] = (.ok none, remade after.lost) := rfl
  have h₁ : Step (.fresh false) _ ⟨.unanchored, none, []⟩ := Step.opened (w := .fresh false) hfailed
  have h₂ : Step _ _ ⟨.unanchored, some {}, []⟩ :=
    Step.opened (w := ⟨.unanchored, none, []⟩) hopened
  have h₃ : Step _ _ ⟨after, some {}, [.attempt (sampleRecord 1) true true]⟩ :=
    Step.committed (w := ⟨.unanchored, some {}, []⟩) rfl hcommitted
  have h₄ := Step.powerLost (w := ⟨_, some {}, [.attempt (sampleRecord 1) true true]⟩) hlost
  have h₅ : Step _ _ ⟨remade after.lost, some {}, [.attempt (sampleRecord 1) true true]⟩ :=
    Step.opened (w := ⟨after.lost, none, [.attempt (sampleRecord 1) true true]⟩) hreopened
  have hreach : Reaches Step (fun _ _ => True) (.fresh false) _ :=
    ((((Reaches.start.step trivial h₁).step trivial h₂).step trivial h₃).step trivial h₄).step
      trivial h₅
  exact ⟨_, _, hreach, List.mem_cons_self, .loaded rfl hloaded⟩

/-- The directory is made, a commit is acknowledged, the next one stops after its renaming, and
a loss of power takes the renaming back. -/
theorem store_consistent_committed : ∃ w r, r.Same (sampleRecord 1) ∧
    Reaches Step (Anchored World.disk Label.opens) (.fresh false) w ∧
    w.log = [.seen r, .attempt (sampleRecord 2) true false, .attempt (sampleRecord 1) true true] ∧
    Consistent w := by
  let made : Disk Name := remade (.blank false)
  let first := (run (written 1) made []).2
  let second := (run (written 2) first (.replicate 5 .none ++ [.stops []])).2
  let left := second.restored first.entries
  have hopened : run (openStore [.normal] {} false) (.blank false) [] = (.ok (), made) := rfl
  have hcommitted : run (commit {} (sampleRecord 1)) made [] = (.ok (), first) := by
    rw [commit_sampleRecord]
    rfl
  have hstopped : run (commit {} (sampleRecord 2)) first (.replicate 5 .none ++ [.stops []]) =
      (.stopped, second) := by
    rw [commit_sampleRecord]
    rfl
  have hlost : Survives second left := by
    refine survives_restored (by decide) fun name => ?_
    cases name <;> decide
  have hreopened : run (openStore [.normal] {} false) left [] = (.ok (), left) := rfl
  obtain ⟨r, hr, hsame⟩ := RecordCodec.decode_layout (sampleRecord_fits 1)
  have hloaded : run (load {}) left [] = (.ok (some r), left.settle) :=
    load_run (show left.entries .board = some 0 from rfl) rfl (by decide : 60 ≤ 33566784) hr
  let log : List (Durable.Event Record) :=
    [.attempt (sampleRecord 2) true false, .attempt (sampleRecord 1) true true]
  have hanchored : Disk.Anchored left := fun _ => by decide
  have h₁ : Step (.fresh false) (.opened (.ok ())) ⟨made, some {}, []⟩ :=
    Step.opened (w := .fresh false) hopened
  have h₂ : Step _ (.committed _ _) ⟨first, some {}, [.attempt (sampleRecord 1) true true]⟩ :=
    Step.committed (w := ⟨made, some {}, []⟩) rfl hcommitted
  have h₃ : Step _ (.committed _ _) ⟨second, none, log⟩ :=
    Step.committed (w := ⟨first, some {}, _⟩) rfl hstopped
  have h₄ := Step.powerLost (w := ⟨second, none, log⟩) hlost
  have h₅ : Step _ (.opened (.ok ())) ⟨left, some {}, log⟩ :=
    Step.opened (w := ⟨left, none, log⟩) hreopened
  have h₆ := Step.loaded (w := ⟨left, some {}, log⟩) rfl hloaded
  have hreach : Reaches Step (Anchored World.disk Label.opens) (.fresh false) _ :=
    (((((Reaches.start.step (by rintro - ⟨⟩) h₁).step (by rintro ⟨⟩) h₂).step (by rintro ⟨⟩)
      h₃).step (by rintro ⟨⟩) h₄).step (fun _ => hanchored) h₅).step (by rintro ⟨⟩) h₆
  exact ⟨_, r, hsame, hreach, rfl, store_consistent hreach⟩

end TalkSphere.Board.FileStore
