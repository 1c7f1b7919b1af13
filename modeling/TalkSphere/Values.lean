import Std.Data.TreeMap
import TalkSphere.DocumentLanguage
import TalkSphere.FiniteMap

/-! Documents and the trees built from them. A scanned text is decoded a second time, by
`serde_json` with arbitrary precision: objects become ordered maps, numbers keep their token,
and an object that starts with the private key of the number type is read as a number. -/

namespace TalkSphere.Board

open Json (Tree)
open Outcome (bind_ok)
open Std (TreeMap)

def refuse {α : Type} (e : Error) : Except Stop α := .error (.refused e)

/-- A required part. -/
def need {α : Type} (e : Error) : Option α → Except Stop α
  | none => refuse e
  | some a => .ok a

/-- An outcome of code that cannot leave its range. -/
def lift {α : Type} : Except Error α → Except Stop α
  | .error e => refuse e
  | .ok a => .ok a

/-! The decoder. -/

def privateKey : String := "$serde_json::private::Number"

/-- The members of an object as a map: ordered, the last of equal keys. -/
def mapOf (ms : List (String × Tree)) : List (String × Tree) := (TreeMap.ofList ms).toList

/-- A number spelled in the string of a private object. -/
def numberFromString (text : String) : Option Tree :=
  let token := Json.utf8 text.toList
  if Json.isNumber token then some (.number token) else none

/-- An object behind the private key: its value must be such a string, and its only one. -/
def privateNumber : Tree → List (String × Tree) → Option Tree
  | .string text, [] => numberFromString text
  | _, _ => none

mutual

def ofTree : Tree → Option Tree
  | .array items => (ofTrees items).map .array
  | .object [] => some (.object [])
  | .object ((key, first) :: rest) =>
    if key = privateKey then privateNumber first rest
    else do
      let first ← ofTree first
      let rest ← ofMembers rest
      some (.object (mapOf ((key, first) :: rest)))
  | .null => some .null
  | .bool b => some (.bool b)
  | .number token => some (.number token)
  | .string text => some (.string text)

def ofTrees : List Tree → Option (List Tree)
  | [] => some []
  | t :: ts => do some ((← ofTree t) :: (← ofTrees ts))

def ofMembers : List (String × Tree) → Option (List (String × Tree))
  | [] => some []
  | (key, t) :: ms => do some ((key, ← ofTree t) :: (← ofMembers ms))

end

def fromSlice (bytes : List UInt8) : Option Tree := (Json.parse bytes).bind ofTree

/-! Access to a value. -/

def get (v : Tree) (key : String) : Option Tree :=
  match v with
  | .object ms => ms.lookup key
  | _ => none

def asArray : Tree → Option (List Tree)
  | .array items => some items
  | _ => none

def asStr : Tree → Option String
  | .string text => some text
  | _ => none

def asObject : Tree → Option (List (String × Tree))
  | .object ms => some ms
  | _ => none

def asBool : Tree → Option Bool
  | .bool b => some b
  | _ => none

/-- A string that must be there and not be empty. -/
def string (v : Tree) (key : String) : Except Stop String :=
  need .invalid (((get v key).bind asStr).filter fun text => !text.isEmpty)

/-! Documents. -/

structure Document where
  source : List UInt8
  value : Tree
deriving DecidableEq

def Document.parse (bytes : List UInt8) (limits : Limits) : Except Stop Document := do
  lift limits.validate
  if bytes.length > limits.documentBytes then refuse .limit
  else if (String.fromUTF8? ⟨bytes.toArray⟩).isNone then refuse .invalid
  else
    scan bytes limits
    let value ← need .invalid (fromSlice bytes)
    .ok ⟨bytes, value⟩

/-! What a success says. -/

section

variable {α β : Type}

theorem need_ok {e : Error} {o : Option α} {a : α} : need e o = .ok a ↔ o = some a := by
  cases o <;> simp [need, refuse]

theorem lift_ok {r : Except Error α} {a : α} : lift r = .ok a ↔ r = .ok a := by
  cases r <;> simp [lift, refuse]

theorem guard_ok {c : Prop} [Decidable c] {e : Error} {r : Except Stop α} {a : α} :
    (if c then refuse e else r) = .ok a ↔ ¬ c ∧ r = .ok a := by
  by_cases hc : c
  · simp [hc, refuse]
  · simp [hc]

end

theorem string_ok {v : Tree} {key text : String} :
    string v key = .ok text ↔ get v key = some (.string text) ∧ text ≠ "" := by
  unfold string
  rw [need_ok, Option.filter_eq_some_iff, Option.bind_eq_some_iff]
  constructor
  · rintro ⟨⟨t, hget, htext⟩, hne⟩
    cases t with
    | string s =>
      obtain rfl := Option.some.inj htext
      exact ⟨hget, by simpa using hne⟩
    | null | bool | number | array | object => cases htext
  · rintro ⟨hget, hne⟩
    exact ⟨⟨_, hget, rfl⟩, by simpa using hne⟩

theorem Document.parse_ok {bytes : List UInt8} {limits : Limits} {d : Document} :
    Document.parse bytes limits = .ok d ↔ limits.validate = .ok () ∧
      bytes.length ≤ limits.documentBytes ∧ (String.fromUTF8? ⟨bytes.toArray⟩).isSome ∧
      scan bytes limits = .ok () ∧ fromSlice bytes = some d.value ∧ d.source = bytes := by
  unfold Document.parse
  constructor
  · intro h
    obtain ⟨⟨⟩, hv, h⟩ := bind_ok.mp h
    obtain ⟨hlen, h⟩ := guard_ok.mp h
    obtain ⟨hutf, h⟩ := guard_ok.mp h
    obtain ⟨⟨⟩, hs, h⟩ := bind_ok.mp h
    obtain ⟨value, hvalue, h⟩ := bind_ok.mp h
    obtain rfl := Except.ok.inj h
    exact ⟨lift_ok.mp hv, Nat.not_lt.mp hlen, Option.isSome_iff_ne_none.mpr (by simpa using hutf), hs, need_ok.mp hvalue, rfl⟩
  · rintro ⟨hv, hlen, hutf, hs, hvalue, rfl⟩
    refine bind_ok.mpr ⟨(), lift_ok.mpr hv, ?_⟩
    rw [if_neg (Nat.not_lt.mpr hlen), if_neg (by simpa [Option.isSome_iff_ne_none] using hutf)]
    exact bind_ok.mpr ⟨(), hs, bind_ok.mpr ⟨d.value, need_ok.mpr hvalue, rfl⟩⟩

/-! Objects are maps: one value under a key. -/

def DistinctKeys (ms : List (String × Tree)) : Prop := ms.Pairwise fun a b => a.1 ≠ b.1

theorem lookup_some {ms : List (String × Tree)} {key : String} {v : Tree}
    (h : ms.lookup key = some v) : (key, v) ∈ ms := by
  induction ms with
  | nil => cases h
  | cons m ms ih =>
    obtain ⟨k, x⟩ := m
    rw [List.lookup_cons] at h
    split at h
    case h_1 hk =>
      obtain rfl := Option.some.inj h
      rw [beq_iff_eq.mp hk]
      exact List.mem_cons_self
    case h_2 => exact List.mem_cons_of_mem _ (ih h)

theorem DistinctKeys.lookup {ms : List (String × Tree)} (hd : DistinctKeys ms) {key : String}
    {v : Tree} (h : (key, v) ∈ ms) : ms.lookup key = some v := by
  induction ms with
  | nil => cases h
  | cons m ms ih =>
    obtain ⟨k, x⟩ := m
    obtain ⟨hfirst, hd⟩ := List.pairwise_cons.mp hd
    rw [List.lookup_cons]
    rcases List.mem_cons.mp h with he | h
    · obtain ⟨rfl, rfl⟩ := Prod.mk.inj he
      simp
    · have hne : (key == k) = false := by simpa using (hfirst _ h).symm
      simp only [hne]
      exact ih hd h

theorem mapOf_distinct (ms : List (String × Tree)) : DistinctKeys (mapOf ms) :=
  FiniteMap.pairwise_keys_ne _

theorem privateNumber_number {first v : Tree} {rest : List (String × Tree)}
    (h : privateNumber first rest = some v) : ∃ token, v = .number token := by
  unfold privateNumber at h
  split at h
  · simp only [numberFromString] at h
    split at h
    · exact ⟨_, (Option.some.inj h).symm⟩
    · cases h
  · cases h

theorem ofTree_distinct {t : Tree} {ms : List (String × Tree)} (h : ofTree t = some (.object ms)) :
    DistinctKeys ms := by
  cases t with
  | null | bool | number | string => simp [ofTree] at h
  | array items => simp [ofTree] at h
  | object members =>
    cases members with
    | nil =>
      obtain rfl : [] = ms := by simpa [ofTree] using h
      exact .nil
    | cons m rest =>
      obtain ⟨key, first⟩ := m
      rw [ofTree] at h
      split at h
      case isTrue =>
        obtain ⟨token, he⟩ := privateNumber_number h
        cases he
      case isFalse =>
        simp only [Option.bind_eq_bind, Option.bind_eq_some_iff, Option.some.injEq, Tree.object.injEq] at h
        obtain ⟨first, -, rest, -, rfl⟩ := h
        exact mapOf_distinct _

theorem Document.parse_distinct {bytes : List UInt8} {limits : Limits} {d : Document}
    (h : Document.parse bytes limits = .ok d) {ms : List (String × Tree)}
    (hv : d.value = .object ms) : DistinctKeys ms := by
  obtain ⟨-, -, -, -, hvalue, -⟩ := Document.parse_ok.mp h
  obtain ⟨t, -, ht⟩ := Option.bind_eq_some_iff.mp hvalue
  exact ofTree_distinct (hv ▸ ht)

end TalkSphere.Board
