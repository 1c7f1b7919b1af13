import TalkSphere.Definitions

/-! The grammar of schema descriptors, and that the validator decides it. A descriptor is read
down to the types it does not look into; the walk spends one budget on all of its parts. -/

namespace TalkSphere.Board

open Json (Tree)
open Outcome (bind_ok)

/-- The descriptors inside one descriptor, as far as they are inspected. -/
inductive Descriptor
  | plain (type : String)
  | array (items : Descriptor)
  | object (fields : List Descriptor)

namespace Descriptor

mutual

/-- The types of the inspected descriptors, one for each. -/
def types : Descriptor → List String
  | plain type => [type]
  | array items => "array" :: types items
  | object fields => "object" :: typesAll fields

def typesAll : List Descriptor → List String
  | [] => []
  | d :: ds => types d ++ typesAll ds

end

mutual

/-- How many levels the inspected descriptors nest below the root. -/
def levels : Descriptor → Nat
  | plain _ => 0
  | array items => levels items + 1
  | object fields => levelsAll fields

def levelsAll : List Descriptor → Nat
  | [] => 0
  | d :: ds => max (levels d + 1) (levelsAll ds)

end

end Descriptor

open Descriptor (typesAll levelsAll)

def vocabulary : List String := "object" :: "array" :: primitives

/-- What every descriptor has, and a field of an object besides. -/
structure Heads (field : Bool) (v : Tree) (type : String) : Prop where
  object : ∃ ms, v = .object ms
  optional : ∀ flag, get v "optional" = some flag → field = true ∧ ∃ b, flag = .bool b
  description : field = true → ∃ text, get v "description" = some (.string text) ∧ text ≠ ""
  type : get v "type" = some (.string type) ∧ type ≠ ""

mutual

inductive Describes : Bool → Tree → Descriptor → Prop
  | plain {field : Bool} {v : Tree} {type : String} : Heads field v type → type ≠ "object" →
      type ≠ "array" → Describes field v (.plain type)
  | array {field : Bool} {v item : Tree} {d : Descriptor} : Heads field v "array" →
      get v "items" = some item → Describes false item d → Describes field v (.array d)
  | object {field : Bool} {v : Tree} {ms : List (String × Tree)} {ds : List Descriptor} :
      Heads field v "object" → get v "fields" = some (.object ms) → DescribesFields ms ds →
      Describes field v (.object ds)

inductive DescribesFields : List (String × Tree) → List Descriptor → Prop
  | nil : DescribesFields [] []
  | cons {name : String} {child : Tree} {d : Descriptor} {ms : List (String × Tree)}
      {ds : List Descriptor} : name ≠ "" → Describes true child d → DescribesFields ms ds →
      DescribesFields ((name, child) :: ms) (d :: ds)

end

/-! Support. -/

/-- The support that a list of inspected types has. -/
def supportOf (types : List String) : Support :=
  if types.all fun type => vocabulary.contains type then .known else .unknown

theorem supportOf_known {types : List String} :
    supportOf types = .known ↔ ∀ type ∈ types, type ∈ vocabulary := by
  by_cases h : types.all (fun type => vocabulary.contains type) = true
  · simp only [supportOf, h, if_true, true_iff]
    simpa using h
  · simp only [supportOf, h, reduceCtorEq]
    simpa using h

theorem supportOf_append (types types' : List String) :
    supportOf (types ++ types') = (supportOf types).and (supportOf types') := by
  simp only [supportOf, List.all_append]
  cases types.all fun type => vocabulary.contains type <;>
    cases types'.all fun type => vocabulary.contains type <;> rfl

theorem supportOf_cons {type : String} (h : type ∈ vocabulary) (types : List String) :
    supportOf (type :: types) = supportOf types := by
  simp [supportOf, h]

theorem known_and (s : Support) : Support.known.and s = s := by cases s <;> rfl

theorem support_and_assoc (s t u : Support) : (s.and t).and u = s.and (t.and u) := by
  cases s <;> cases t <;> cases u <;> rfl

/-! The walk, one level at a time. -/

/-- What the walk does behind the head of a descriptor. -/
def inspect (levels : Nat) (v : Tree) (type : String) (remaining : Nat) :
    Except Stop (Support × Nat) := do
  if type = "object" then
    let fields ← need .invalid ((get v "fields").bind asObject)
    fields.foldlM (fun (support, remaining) (name, child) => do
      if name.isEmpty then refuse .invalid
      else
        let (own, remaining) ← walk levels child true remaining
        .ok (support.and own, remaining)) (.known, remaining)
  else if type = "array" then
    walk levels (← need .invalid (get v "items")) false remaining
  else if type ∈ primitives then .ok (.known, remaining)
  else .ok (.unknown, remaining)

theorem walk_succ {levels : Nat} {v : Tree} {field : Bool} {remaining : Nat}
    {out : Support × Nat} : walk (levels + 1) v field remaining = .ok out ↔
      0 < remaining ∧ ∃ type, Heads field v type ∧ inspect levels v type (remaining - 1) = .ok out := by
  have hobject : isObject v = true ↔ ∃ ms, v = .object ms := by
    cases v <;> simp [isObject, asObject]
  have hoptional : ¬ ((get v "optional").any fun flag => !field || (asBool flag).isNone) = true ↔
      ∀ flag, get v "optional" = some flag → field = true ∧ ∃ b, flag = .bool b := by
    cases get v "optional" with
    | none => simp
    | some flag => cases flag <;> cases field <;> simp [asBool]
  rw [walk]
  constructor
  · intro h
    obtain ⟨hrem, h⟩ := guard_ok.mp h
    obtain ⟨hobj, h⟩ := guard_ok.mp h
    obtain ⟨hopt, h⟩ := guard_ok.mp h
    refine ⟨Nat.pos_of_ne_zero hrem, ?_⟩
    cases field with
    | false =>
      obtain ⟨type, htype, h⟩ := bind_ok.mp h
      exact ⟨type, ⟨hobject.mp (by simpa using hobj), hoptional.mp hopt, (by rintro ⟨⟩), string_ok.mp htype⟩, h⟩
    | true =>
      obtain ⟨text, htext, h⟩ := bind_ok.mp h
      obtain ⟨type, htype, h⟩ := bind_ok.mp h
      exact ⟨type, ⟨hobject.mp (by simpa using hobj), hoptional.mp hopt,
        fun _ => ⟨text, string_ok.mp htext⟩, string_ok.mp htype⟩, h⟩
  · rintro ⟨hrem, type, ⟨hobj, hopt, hdesc, htype⟩, h⟩
    refine guard_ok.mpr ⟨hrem.ne', guard_ok.mpr ⟨by simpa using hobject.mpr hobj,
      guard_ok.mpr ⟨hoptional.mpr hopt, ?_⟩⟩⟩
    cases field with
    | false => exact bind_ok.mpr ⟨type, string_ok.mpr htype, h⟩
    | true =>
      obtain ⟨text, htext⟩ := hdesc rfl
      exact bind_ok.mpr ⟨text, string_ok.mpr htext, bind_ok.mpr ⟨type, string_ok.mpr htype, h⟩⟩

/-! The validator decides the grammar. -/

/-- The walk of trees with fewer than `levels` levels. -/
def Decides (levels : Nat) : Prop :=
  ∀ {v : Tree} {field : Bool} {remaining rest : Nat} {support : Support},
    walk levels v field remaining = .ok (support, rest) ↔
      ∃ d, Describes field v d ∧ d.levels < levels ∧ rest + d.types.length = remaining ∧
        support = supportOf d.types

theorem fields_iff {levels : Nat} (hwalk : Decides levels) {ms : List (String × Tree)}
    {remaining rest : Nat} {start support : Support} :
    ms.foldlM (fun (support, remaining) (name, child) => do
      if name.isEmpty then refuse .invalid
      else
        let (own, remaining) ← walk levels child true remaining
        .ok (support.and own, remaining)) (start, remaining) = Except.ok (support, rest) ↔
      ∃ ds, DescribesFields ms ds ∧ levelsAll ds ≤ levels ∧
        rest + (typesAll ds).length = remaining ∧ support = start.and (supportOf (typesAll ds)) := by
  induction ms generalizing start remaining with
  | nil =>
    constructor
    · intro h
      obtain ⟨rfl, rfl⟩ := Prod.mk.inj (Except.ok.inj h)
      exact ⟨[], .nil, Nat.zero_le _, rfl, by cases start <;> rfl⟩
    · rintro ⟨_, ⟨⟩, -, rfl, rfl⟩
      cases start <;> rfl
  | cons m ms ih =>
    obtain ⟨name, child⟩ := m
    rw [List.foldlM_cons]
    constructor
    · intro h
      obtain ⟨⟨mid, left⟩, hstep, h⟩ := bind_ok.mp h
      obtain ⟨hname, hstep⟩ := guard_ok.mp hstep
      obtain ⟨⟨own, left'⟩, hchild, hstep⟩ := bind_ok.mp hstep
      obtain ⟨rfl, rfl⟩ := Prod.mk.inj (Except.ok.inj hstep)
      obtain ⟨d, hd, hlevels, hcount, rfl⟩ := hwalk.mp hchild
      obtain ⟨ds, hds, hall, hcounts, rfl⟩ := ih.mp h
      refine ⟨d :: ds, .cons (by simpa using hname) hd hds, ?_, ?_, ?_⟩
      · simp only [levelsAll]
        omega
      · simp only [typesAll, List.length_append]
        omega
      · rw [typesAll, supportOf_append, support_and_assoc]
    · rintro ⟨_, hds, hall, hcounts, rfl⟩
      cases hds with
      | @cons _ _ d _ ds hname hd hds =>
        simp only [levelsAll, typesAll, List.length_append] at hall hcounts
        refine bind_ok.mpr ⟨(start.and (supportOf d.types), rest + (typesAll ds).length), ?_, ?_⟩
        · refine guard_ok.mpr ⟨by simpa using hname, bind_ok.mpr ⟨(supportOf d.types, _), ?_, rfl⟩⟩
          exact hwalk.mpr ⟨d, hd, by omega, by omega, rfl⟩
        · refine ih.mpr ⟨ds, hds, by omega, rfl, ?_⟩
          rw [typesAll, supportOf_append, support_and_assoc]

section

variable {levels : Nat} {v : Tree} {remaining rest : Nat} {support : Support}

theorem inspect_object (hwalk : Decides levels) :
    inspect levels v "object" remaining = .ok (support, rest) ↔
      ∃ ms ds, get v "fields" = some (.object ms) ∧ DescribesFields ms ds ∧ levelsAll ds ≤ levels ∧
        rest + (typesAll ds).length = remaining ∧ support = supportOf (typesAll ds) := by
  have hobject : ∀ {ms}, (get v "fields").bind asObject = some ms ↔
      get v "fields" = some (.object ms) := by
    intro ms
    cases get v "fields" with
    | none => simp
    | some t => cases t <;> simp [asObject]
  rw [inspect, if_pos rfl]
  refine bind_ok.trans (exists_congr fun ms => ?_)
  rw [need_ok, hobject, fields_iff hwalk, exists_and_left]
  simp only [known_and]

theorem inspect_array (hwalk : Decides levels) :
    inspect levels v "array" remaining = .ok (support, rest) ↔
      ∃ item d, get v "items" = some item ∧ Describes false item d ∧ d.levels < levels ∧
        rest + d.types.length = remaining ∧ support = supportOf d.types := by
  rw [inspect, if_neg (by decide), if_pos rfl]
  refine bind_ok.trans (exists_congr fun item => ?_)
  rw [need_ok, hwalk, exists_and_left]

theorem inspect_plain {type : String} (hobject : type ≠ "object") (harray : type ≠ "array") :
    inspect levels v type remaining = .ok (support, rest) ↔
      rest = remaining ∧ support = supportOf [type] := by
  have hknown : type ∈ vocabulary ↔ type ∈ primitives := by
    simp [vocabulary, hobject, harray]
  rw [inspect, if_neg hobject, if_neg harray]
  by_cases h : type ∈ primitives
  · simp [h, supportOf, hknown, eq_comm, and_comm]
  · simp [h, supportOf, hknown, eq_comm, and_comm]

end

theorem decides (levels : Nat) : Decides levels := by
  induction levels with
  | zero => simp [Decides, walk, refuse]
  | succ levels ih =>
    intro v field remaining rest support
    rw [walk_succ]
    constructor
    · rintro ⟨hrem, type, hheads, h⟩
      by_cases hobject : type = "object"
      · subst hobject
        obtain ⟨ms, ds, hms, hds, hlevels, hcount, rfl⟩ := (inspect_object ih).mp h
        refine ⟨.object ds, .object hheads hms hds, Nat.lt_succ_of_le hlevels, ?_, ?_⟩
        · simp only [Descriptor.types, List.length_cons]
          omega
        · rw [Descriptor.types, supportOf_cons (by decide)]
      · by_cases harray : type = "array"
        · subst harray
          obtain ⟨item, d, hitem, hd, hlevels, hcount, rfl⟩ := (inspect_array ih).mp h
          refine ⟨.array d, .array hheads hitem hd, Nat.succ_lt_succ hlevels, ?_, ?_⟩
          · simp only [Descriptor.types, List.length_cons]
            omega
          · rw [Descriptor.types, supportOf_cons (by decide)]
        · obtain ⟨rfl, rfl⟩ := (inspect_plain hobject harray).mp h
          exact ⟨.plain type, .plain hheads hobject harray, Nat.succ_pos _, Nat.sub_add_cancel hrem, rfl⟩
    · rintro ⟨d, hd, hlevels, hcount, rfl⟩
      cases hd with
      | @plain _ _ type hheads hobject harray =>
        simp only [Descriptor.types, List.length_singleton] at hcount
        refine ⟨by omega, type, hheads, (inspect_plain hobject harray).mpr ⟨by omega, rfl⟩⟩
      | @array _ _ item d hheads hitem hd =>
        simp only [Descriptor.types, Descriptor.levels, List.length_cons] at hcount hlevels
        rw [Descriptor.types, supportOf_cons (by decide)]
        refine ⟨by omega, "array", hheads, (inspect_array ih).mpr ⟨item, d, hitem, hd, ?_⟩⟩
        exact ⟨by omega, by omega, rfl⟩
      | @object _ _ ms ds hheads hms hds =>
        simp only [Descriptor.types, Descriptor.levels, List.length_cons] at hcount hlevels
        rw [Descriptor.types, supportOf_cons (by decide)]
        refine ⟨by omega, "object", hheads, (inspect_object ih).mpr ⟨ms, ds, hms, hds, ?_⟩⟩
        exact ⟨by omega, by omega, rfl⟩

theorem validateSchema_decides (v : Tree) (support : Support) :
    validateSchema v = .ok support ↔ ∃ d, Describes false v d ∧ d.levels ≤ 31 ∧
      d.types.length ≤ 65536 ∧ (support = .known ↔ ∀ type ∈ d.types, type ∈ vocabulary) := by
  have hsupport : ∀ {types}, support = supportOf types ↔
      (support = .known ↔ ∀ type ∈ types, type ∈ vocabulary) := by
    intro types
    rw [← supportOf_known]
    cases support <;> cases supportOf types <;> simp
  constructor
  · intro h
    obtain ⟨⟨own, rest⟩, hwalk, h⟩ := bind_ok.mp h
    obtain rfl := Except.ok.inj h
    obtain ⟨d, hd, hlevels, hcount, hown⟩ := (decides 32).mp hwalk
    exact ⟨d, hd, by omega, by omega, hsupport.mp hown⟩
  · rintro ⟨d, hd, hlevels, hcount, hown⟩
    refine bind_ok.mpr ⟨(support, 65536 - d.types.length), (decides 32).mpr ⟨d, hd, ?_⟩, rfl⟩
    exact ⟨by omega, by omega, hsupport.mpr hown⟩

end TalkSphere.Board
