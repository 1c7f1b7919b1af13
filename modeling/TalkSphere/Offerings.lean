import TalkSphere.IdentityText
import TalkSphere.Integers
import TalkSphere.Values

/-! Offerings: economic terms and the index of a board. -/

namespace TalkSphere.Board

open Json (Tree)
open Std (TreeMap)

/-! Terms. -/

def positive (v : Tree) : Except Stop Nat := do
  need .invalid ((← integer v).filter (0 < ·))

/-- A member that, when it is there, must pass. -/
def optional (v : Tree) (key : String) (check : Tree → Except Stop Unit) : Except Stop Unit :=
  match get v key with
  | none => .ok ()
  | some part => check part

def isObject (v : Tree) : Bool := (asObject v).isSome

def checkPricing (pricing : Tree) : Except Stop Unit := do
  if !isObject pricing then refuse .invalid
  else
    let _ ← string pricing "model"
    .ok ()

def checkPrecondition (name : Tree) : Except Stop Unit := do
  let name ← need .invalid (asStr name)
  if name.isEmpty then refuse .invalid else .ok ()

def checkSuggestion (hint : Tree) : Except Stop Unit := do
  if !isObject hint then refuse .invalid
  else
    let _ ← string hint "name"
    if ["version", "uri", "description"].any fun field =>
        (get hint field).any fun v => (asStr v).isNone then refuse .invalid
    else .ok ()

def checkAll (check : Tree → Except Stop Unit) (v : Tree) : Except Stop Unit := do
  let items ← need .invalid (asArray v)
  items.forM check

/-- The economic representation of one offering and its inert metadata. -/
def validateTerms (v : Tree) : Except Stop Unit := do
  let o ← need .invalid (asObject v)
  if ["input", "output", "check"].any fun key => (o.lookup key).isSome then refuse .invalid
  else if (o.lookup "price").isSome == (o.lookup "pricing").isSome then refuse .invalid
  else
    optional v "price" fun price => do let _ ← positive price; .ok ()
    optional v "checkPrice" fun price => do let _ ← positive price; .ok ()
    optional v "pricing" checkPricing
    if (get v "info").any fun info => !isObject info then refuse .invalid
    else
      optional v "preconditions" (checkAll checkPrecondition)
      optional v "implementationSuggestions" (checkAll checkSuggestion)

/-! Offerings. -/

inductive Direction
  | provided
  | wanted
deriving DecidableEq, Repr

structure Offering where
  id : String
  service : String
  version : Nat
  description : String
  issuer : IdentityId
  direction : Direction
  source : Tree
deriving DecidableEq

def u32Max : Nat := 2 ^ 32 - 1

def Offering.parse (direction : Direction) (v : Tree) : Except Stop Offering := do
  let o ← need .invalid (asObject v)
  let version ← integer (← need .invalid (o.lookup "serviceVersion"))
  let version ← need .invalid (version.filter fun n => 0 < n ∧ n ≤ u32Max)
  validateTerms v
  let id ← string v "id"
  let service ← string v "service"
  let description ← string v "description"
  let issuer ← need .invalid (IdentityText.parse (← string v "creditIssuer")).toOption
  .ok ⟨id, service, version, description, issuer, direction, v⟩

abbrev Offerings := TreeMap String Offering

def insertOffering (limits : Limits) (offerings : Offerings) (o : Offering) :
    Except Stop Offerings :=
  if offerings.contains o.id then refuse .invalid
  else
    let offerings := offerings.insert o.id o
    if offerings.size > limits.definitions then refuse .limit else .ok offerings

def addOffering (limits : Limits) (direction : Direction) (offerings : Offerings) (v : Tree) :
    Except Stop Offerings := do
  insertOffering limits offerings (← Offering.parse direction v)

/-- The offerings of one list. -/
def addOfferings (limits : Limits) (root : List (String × Tree)) (offerings : Offerings)
    (field : String) (direction : Direction) : Except Stop Offerings := do
  let items ← need .invalid ((root.lookup field).bind asArray)
  items.foldlM (addOffering limits direction) offerings

end Board

structure Board where
  document : Board.Document
  offerings : Board.Offerings

namespace Board

open Json (Tree)
open Outcome (bind_ok)
open Std (TreeMap)

def parse (bytes : List UInt8) (limits : Limits) : Except Stop Board := do
  let document ← Document.parse bytes limits
  let root ← need .invalid (asObject document.value)
  let version ← integer (← need .invalid (root.lookup "version"))
  if (← need .invalid version) ≠ 1 then refuse .unsupported
  else
    let offerings ← addOfferings limits root ∅ "providedServices" .provided
    let offerings ← addOfferings limits root offerings "wantedServices" .wanted
    .ok ⟨document, offerings⟩

/-! What an accepted board holds. -/

section

variable {limits : Limits} {offerings offerings' : Offerings} {os : List Offering}

/-- The index of a list of offerings: each under its own id, and nothing else. -/
structure Indexes (offerings : Offerings) (os : List Offering) : Prop where
  distinct : (os.map Offering.id).Nodup
  holds : ∀ {id o}, offerings[id]? = some o ↔ o ∈ os ∧ o.id = id

theorem indexes_empty : Indexes ∅ [] := ⟨List.nodup_nil, by simp⟩

theorem Indexes.insert (h : Indexes offerings os) {o : Offering}
    (ho : insertOffering limits offerings o = .ok offerings') : Indexes offerings' (os ++ [o]) := by
  obtain ⟨hnew, ho⟩ := guard_ok.mp ho
  obtain ⟨-, ho⟩ := guard_ok.mp ho
  obtain rfl := Except.ok.inj ho
  have hfresh : ∀ x ∈ os, x.id ≠ o.id := by
    intro x hx he
    have hget : offerings[o.id]? = some x := h.holds.mpr ⟨hx, he⟩
    rw [TreeMap.contains_eq_isSome_getElem?, hget] at hnew
    exact hnew rfl
  constructor
  · rw [List.map_append, List.nodup_append]
    refine ⟨h.distinct, List.nodup_singleton _, ?_⟩
    intro x hx y hy
    obtain ⟨z, hz, rfl⟩ := List.mem_map.mp hx
    rw [List.mem_singleton.mp hy]
    exact hfresh z hz
  · intro id x
    rw [TreeMap.getElem?_insert, List.mem_append, List.mem_singleton]
    by_cases hid : o.id = id
    · subst hid
      simp only [Std.compare_self, if_true, Option.some.injEq]
      constructor
      · rintro rfl
        exact ⟨.inr rfl, rfl⟩
      · rintro ⟨hx | rfl, he⟩
        · exact absurd he (hfresh x hx)
        · rfl
    · rw [if_neg (by simpa using hid), h.holds]
      constructor
      · exact fun hx => ⟨.inl hx.1, hx.2⟩
      · rintro ⟨hx | rfl, he⟩
        · exact ⟨hx, he⟩
        · exact absurd he hid

/-- The offerings that a list of the document spells. -/
def Spells (direction : Direction) (items : List Tree) (os : List Offering) : Prop :=
  List.Forall₂ (fun v o => Offering.parse direction v = .ok o) items os

theorem addOfferings_ok (h : Indexes offerings os) {root : List (String × Tree)} {field : String}
    {direction : Direction}
    (ha : addOfferings limits root offerings field direction = .ok offerings') :
    ∃ items new, root.lookup field = some (.array items) ∧ Spells direction items new ∧
      Indexes offerings' (os ++ new) := by
  obtain ⟨items, hitems, ha⟩ := bind_ok.mp ha
  have hfield : root.lookup field = some (.array items) := by
    obtain ⟨v, hv, ha⟩ := Option.bind_eq_some_iff.mp (need_ok.mp hitems)
    cases v <;> simp_all [asArray]
  obtain ⟨new, hspells, hindex⟩ : ∃ new, Spells direction items new ∧
      Indexes offerings' (os ++ new) := by
    refine Outcome.foldlM_ok
      (fun passed m => ∃ new, Spells direction passed new ∧ Indexes m (os ++ new)) ha
      ⟨[], .nil, by rwa [List.append_nil]⟩ ?_
    rintro passed v rest m m' - ⟨new, hspells, hindex⟩ hv
    obtain ⟨o, hparse, hinsert⟩ := bind_ok.mp hv
    refine ⟨new ++ [o], List.rel_append hspells (.cons hparse .nil), ?_⟩
    rw [← List.append_assoc]
    exact hindex.insert hinsert
  exact ⟨items, new, hfield, hspells, hindex⟩

end

theorem parse_ok {bytes : List UInt8} {limits : Limits} {b : Board}
    (h : parse bytes limits = .ok b) : Document.parse bytes limits = .ok b.document ∧
      ∃ provided wanted ps ws, get b.document.value "providedServices" = some (.array provided) ∧
        get b.document.value "wantedServices" = some (.array wanted) ∧
        Spells .provided provided ps ∧ Spells .wanted wanted ws ∧ Indexes b.offerings (ps ++ ws) := by
  unfold parse at h
  obtain ⟨document, hd, h⟩ := bind_ok.mp h
  obtain ⟨root, hroot, h⟩ := bind_ok.mp h
  obtain ⟨v, -, h⟩ := bind_ok.mp h
  obtain ⟨version, -, h⟩ := bind_ok.mp h
  obtain ⟨n, -, h⟩ := bind_ok.mp h
  obtain ⟨-, h⟩ := guard_ok.mp h
  obtain ⟨first, hfirst, h⟩ := bind_ok.mp h
  obtain ⟨second, hsecond, h⟩ := bind_ok.mp h
  obtain rfl := Except.ok.inj h
  have hvalue : document.value = .object root := by
    have hobject := need_ok.mp hroot
    generalize document.value = v at hobject
    cases v <;> simp_all [asObject]
  obtain ⟨provided, ps, hp, hps, hindex⟩ := addOfferings_ok indexes_empty hfirst
  obtain ⟨wanted, ws, hw, hws, hindex⟩ := addOfferings_ok hindex hsecond
  refine ⟨hd, provided, wanted, ps, ws, ?_, ?_, hps, hws, by simpa using hindex⟩
  · rw [hvalue]
    exact hp
  · rw [hvalue]
    exact hw

end TalkSphere.Board
