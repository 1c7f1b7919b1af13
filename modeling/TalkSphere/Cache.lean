import TalkSphere.Retention
import TalkSphere.Selection

/-! The cache of remote boards. A receipt is immutable and says where it came from; a definition
is attached to it by replacing it with a new one, and only the current receipt of its key serves.
-/

namespace TalkSphere.Board

open Outcome (bind_ok)
open Retention (Held)
open Std (TreeMap)

inductive Provenance
  | direct (publisher : IdentityId)
  | forwarded (peer : IdentityId)
  deriving DecidableEq, Repr

/-- Direct and forwarded receipts never share a key. -/
def key : Provenance → IdentityId × Bool
  | .direct id => (id, true)
  | .forwarded id => (id, false)

instance keyOrd : Ord (IdentityId × Bool) := lexOrd

structure Remote where
  board : Board
  provenance : Provenance
  received : Nat
  expires : Nat
  /-- The allocation that tells a receipt from an equal one. -/
  revision : Nat
  definitions : TreeMap String Definition

structure Cache where
  authority : Authority
  limits : Limits
  entries : TreeMap (IdentityId × Bool) Remote := ∅
  /-- The revisions, as weak references. -/
  pins : List Nat := []
  next : Nat := 0

namespace Cache

def new (authority : Authority) (limits : Limits) : Except Stop Cache := do
  lift limits.validate
  .ok { authority := authority, limits := limits }

def own (c : Cache) : Held := fun r => c.entries.toList.countP fun e => e.2.revision = r

def strong (c : Cache) (held : Held) (r : Nat) : Nat := c.own r + held r

/-- Expired entries go, and then the pins that nobody refers to. -/
def expire (c : Cache) (now : Nat) : Cache :=
  { c with entries := c.entries.filter fun _ e => e.expires > now }

def retain (c : Cache) (held : Held) : Cache :=
  { c with pins := c.pins.filter fun r => 0 < c.strong held r }

/-- The revision that a replacement under the key releases. -/
def released (c : Cache) (held : Held) (k : IdentityId × Bool) : Option Nat :=
  (c.entries[k]?.filter fun e => c.strong held e.revision = 1).map (·.revision)

def full (c : Cache) (held : Held) (k : IdentityId × Bool) : Prop :=
  (c.entries.contains k = false ∧ c.entries.size ≥ c.limits.cacheEntries) ∨
    c.pins.length - (c.released held k).toList.length ≥ c.limits.snapshots

instance (c : Cache) (held : Held) (k : IdentityId × Bool) : Decidable (c.full held k) :=
  inferInstanceAs (Decidable (_ ∨ _))

/-- A receipt gets an allocation and a pin, and takes the place of the one under its key. -/
def install (c : Cache) (remote : Remote) : Remote × Cache :=
  let remote := { remote with revision := c.next }
  (remote, { c with
    pins := c.pins ++ [c.next]
    next := c.next + 1
    entries := c.entries.insert (key remote.provenance) remote })

section

variable (c : Cache) (env : Surroundings) (context : Context)

/-- What `store` checks before it changes anything. -/
def vet (provenance : Provenance) (bytes : List UInt8) (now : Nat) : Except Stop (Board × Nat) := do
  context.check c.authority (env.moment 0) (key provenance).1 .cache bytes.length
  let board ← Board.parse bytes c.limits
  let expires ← need .limit (checkedAdd now c.limits.cacheSeconds)
  context.check c.authority (env.moment 1) (key provenance).1 .cache bytes.length
  .ok (board, expires)

def store (provenance : Provenance) (bytes : List UInt8) (now : Nat) :
    Except Stop Remote × Cache :=
  match c.vet env context provenance bytes now with
  | .error e => (.error e, c)
  | .ok (board, expires) =>
    let c := (c.expire now).retain (env.held 0)
    if c.full (env.held 1) (key provenance) then (refuse .limit, c)
    else
      let (remote, c) := c.install ⟨board, provenance, now, expires, c.next, ∅⟩
      (.ok remote, c)

def read (provenance : Provenance) (now : Nat) : Except Stop Remote := do
  context.check c.authority (env.moment 0) (key provenance).1 .read 0
  let remote ← need .missing c.entries[key provenance]?
  if now < remote.received ∨ now ≥ remote.expires then refuse .stale
  else
    context.check c.authority (env.moment 1) (key provenance).1 .read
      remote.board.document.source.length
    .ok remote

/-- The receipt is the current one of its key, and fresh. -/
def current (remote : Remote) (now : Nat) : Except Stop Unit := do
  let current ← need .missing c.entries[key remote.provenance]?
  if current.revision ≠ remote.revision ∨ now < remote.received ∨ now ≥ remote.expires then
    refuse .stale
  else .ok ()

def totalBytes (remote : Remote) : Except Stop Nat :=
  (remote.definitions.toList.map Prod.snd).foldlM
    (fun n d => need .limit (checkedAdd n d.document.source.length))
    remote.board.document.source.length

/-- What `attach` checks before it changes anything; the receipt with the definition. -/
def extend (remote : Remote) (id : String) (bytes : List UInt8) (now : Nat) :
    Except Stop Remote := do
  context.check c.authority (env.moment 0) (key remote.provenance).1 .cache bytes.length
  c.current remote now
  let o ← need .missing remote.board.offerings[id]?
  let d ← Definition.parse bytes o c.limits
  let next := { remote with definitions := remote.definitions.insert id d }
  let total ← totalBytes next
  if total > c.limits.publicationBytes then refuse .limit else .ok next

/-- The copy that is being extended refers to the old revision too, but so does its entry. -/
def attach (remote : Remote) (id : String) (bytes : List UInt8) (now : Nat) :
    Except Stop Remote × Cache :=
  match c.extend env context remote id bytes now with
  | .error e => (.error e, c)
  | .ok next =>
    let c := c.retain (env.held 0)
    if c.pins.length ≥ c.limits.snapshots then (refuse .limit, c)
    else match context.check c.authority (env.moment 1) (key remote.provenance).1 .cache
        bytes.length with
      | .error e => (.error e, c)
      | .ok () =>
        let (remote, c) := c.install next
        (.ok remote, c)

def definition (remote : Remote) (id : String) (now : Nat) : Except Stop Definition := do
  context.check c.authority (env.moment 0) (key remote.provenance).1 .read 0
  c.current remote now
  let d ← need .missing remote.definitions[id]?
  context.check c.authority (env.moment 1) (key remote.provenance).1 .read d.document.source.length
  .ok d

def select (remote : Remote) (r : Request) (caps : Capabilities) (now : Nat) :
    Except Stop Selection := do
  c.current remote now
  match remote.provenance with
  | .forwarded _ => refuse .unsupported
  | .direct publisher =>
    context.check c.authority (env.moment 0) publisher .select remote.board.document.source.length
    let o ← need .missing remote.board.offerings[r.id]?
    let d ← need .missing remote.definitions[r.id]?
    Board.select o d publisher r caps

end

/-! What the operations can do. -/

section

variable {c : Cache} {env : Surroundings} {context : Context}

inductive Stored (c : Cache) (env : Surroundings) (provenance : Provenance) (now : Nat) :
    Except Stop Remote → Cache → Prop
  | refused {e : Stop} : Stored c env provenance now (.error e) c
  | crowded {e : Stop} : Stored c env provenance now (.error e) ((c.expire now).retain (env.held 0))
  | done {board : Board} {expires : Nat}
      (hroom : ¬ ((c.expire now).retain (env.held 0)).full (env.held 1) (key provenance)) :
      Stored c env provenance now (.ok ⟨board, provenance, now, expires, c.next, ∅⟩)
        (((c.expire now).retain (env.held 0)).install
          ⟨board, provenance, now, expires, c.next, ∅⟩).2

theorem store_stored {provenance : Provenance} {bytes : List UInt8} {now : Nat}
    {reply : Except Stop Remote} {c' : Cache}
    (h : c.store env context provenance bytes now = (reply, c')) :
    Stored c env provenance now reply c' := by
  rw [store] at h
  split at h
  case h_1 =>
    obtain ⟨rfl, rfl⟩ := Prod.mk.inj h
    exact .refused
  case h_2 board expires _ =>
    dsimp only at h
    split_ifs at h with hfull
    · obtain ⟨rfl, rfl⟩ := Prod.mk.inj h
      exact .crowded
    · obtain ⟨rfl, rfl⟩ := Prod.mk.inj h
      exact .done hfull

/-- A receipt that is current and fresh, and a definition that fits one of its offerings. -/
structure Extends (c : Cache) (remote next : Remote) (now : Nat) : Prop where
  current : c.current remote now = .ok ()
  next : ∃ id o bytes d, remote.board.offerings[id]? = some o ∧
    Definition.parse bytes o c.limits = .ok d ∧
    next = { remote with definitions := remote.definitions.insert id d }

theorem extend_ok {remote next : Remote} {id : String} {bytes : List UInt8} {now : Nat}
    (h : c.extend env context remote id bytes now = .ok next) : Extends c remote next now := by
  obtain ⟨⟨⟩, -, h⟩ := bind_ok.mp h
  obtain ⟨⟨⟩, hcurrent, h⟩ := bind_ok.mp h
  obtain ⟨o, ho, h⟩ := bind_ok.mp h
  obtain ⟨d, hd, h⟩ := bind_ok.mp h
  obtain ⟨total, -, h⟩ := bind_ok.mp h
  obtain ⟨-, h⟩ := guard_ok.mp h
  obtain rfl := Except.ok.inj h
  exact ⟨hcurrent, id, o, bytes, d, need_ok.mp ho, hd, rfl⟩

inductive Attached (c : Cache) (env : Surroundings) (remote : Remote) (now : Nat) :
    Except Stop Remote → Cache → Prop
  | refused {e : Stop} : Attached c env remote now (.error e) c
  | crowded {e : Stop} : Attached c env remote now (.error e) (c.retain (env.held 0))
  | done {next : Remote} (hextends : Extends c remote next now)
      (hroom : (c.retain (env.held 0)).pins.length < c.limits.snapshots) :
      Attached c env remote now (.ok { next with revision := c.next })
        ((c.retain (env.held 0)).install next).2

theorem attach_attached {remote : Remote} {id : String} {bytes : List UInt8} {now : Nat}
    {reply : Except Stop Remote} {c' : Cache}
    (h : c.attach env context remote id bytes now = (reply, c')) :
    Attached c env remote now reply c' := by
  rw [attach] at h
  split at h
  case h_1 =>
    obtain ⟨rfl, rfl⟩ := Prod.mk.inj h
    exact .refused
  case h_2 next hextend =>
    dsimp only at h
    split_ifs at h with hfull
    · obtain ⟨rfl, rfl⟩ := Prod.mk.inj h
      exact .crowded
    split at h
    case h_1 =>
      obtain ⟨rfl, rfl⟩ := Prod.mk.inj h
      exact .crowded
    case h_2 =>
      obtain ⟨rfl, rfl⟩ := Prod.mk.inj h
      exact .done (extend_ok hextend) (Nat.lt_of_not_le hfull)

theorem current_ok {remote : Remote} {now : Nat} (h : c.current remote now = .ok ()) :
    (∃ e, c.entries[key remote.provenance]? = some e ∧ e.revision = remote.revision) ∧
      remote.received ≤ now ∧ now < remote.expires := by
  obtain ⟨e, he, h⟩ := bind_ok.mp h
  obtain ⟨hok, -⟩ := guard_ok.mp h
  obtain ⟨hrevision, hfresh⟩ := not_or.mp hok
  obtain ⟨hreceived, hexpires⟩ := not_or.mp hfresh
  exact ⟨⟨e, need_ok.mp he, not_not.mp hrevision⟩, Nat.le_of_not_lt hreceived,
    Nat.lt_of_not_le hexpires⟩

theorem read_ok {provenance : Provenance} {now : Nat} {remote : Remote}
    (h : c.read env context provenance now = .ok remote) :
    c.entries[key provenance]? = some remote ∧ remote.received ≤ now ∧ now < remote.expires := by
  obtain ⟨⟨⟩, -, h⟩ := bind_ok.mp h
  obtain ⟨e, he, h⟩ := bind_ok.mp h
  obtain ⟨hfresh, h⟩ := guard_ok.mp h
  obtain ⟨⟨⟩, -, h⟩ := bind_ok.mp h
  obtain rfl := Except.ok.inj h
  obtain ⟨hreceived, hexpires⟩ := not_or.mp hfresh
  exact ⟨need_ok.mp he, Nat.le_of_not_lt hreceived, Nat.lt_of_not_le hexpires⟩

theorem definition_ok {remote : Remote} {id : String} {now : Nat} {d : Definition}
    (h : c.definition env context remote id now = .ok d) :
    c.current remote now = .ok () ∧ remote.definitions[id]? = some d := by
  obtain ⟨⟨⟩, -, h⟩ := bind_ok.mp h
  obtain ⟨⟨⟩, hcurrent, h⟩ := bind_ok.mp h
  obtain ⟨d', hd, h⟩ := bind_ok.mp h
  obtain ⟨⟨⟩, -, h⟩ := bind_ok.mp h
  obtain rfl := Except.ok.inj h
  exact ⟨hcurrent, need_ok.mp hd⟩

theorem select_ok {remote : Remote} {r : Request} {caps : Capabilities} {now : Nat}
    {selected : Selection} (h : c.select env context remote r caps now = .ok selected) :
    c.current remote now = .ok () ∧ ∃ publisher o d, remote.provenance = .direct publisher ∧
      remote.board.offerings[r.id]? = some o ∧ remote.definitions[r.id]? = some d ∧
      Board.select o d publisher r caps = .ok selected := by
  obtain ⟨⟨⟩, hcurrent, h⟩ := bind_ok.mp h
  refine ⟨hcurrent, ?_⟩
  split at h
  case h_1 => cases h
  case h_2 publisher hprovenance =>
    obtain ⟨⟨⟩, -, h⟩ := bind_ok.mp h
    obtain ⟨o, ho, h⟩ := bind_ok.mp h
    obtain ⟨d, hd, h⟩ := bind_ok.mp h
    exact ⟨publisher, o, d, hprovenance, need_ok.mp ho, need_ok.mp hd, h⟩

end

end Cache

end TalkSphere.Board
