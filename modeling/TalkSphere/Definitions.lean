import TalkSphere.Offerings

/-! Service definitions: schemas, the binding of a definition to its offering, the comparison
of contracts, and the responses that carry documents to a peer. -/

namespace TalkSphere.Board

open Json (Tree)
open Outcome (bind_ok)

/-! Schemas. -/

inductive Support
  | known
  | unknown
deriving DecidableEq, Repr

/-- Unknown parts make the whole unknown. -/
def Support.and : Support → Support → Support
  | .known, .known => .known
  | _, _ => .unknown

def primitives : List String :=
  ["bool", "int32", "int64", "uint32", "uint64", "float", "double", "string", "bytes"]

/-- The structure of a schema. `levels` is how deep it may still nest (32 less the source's
depth) and `remaining` how many nodes it may still have, which is passed on. -/
def walk : Nat → Tree → Bool → Nat → Except Stop (Support × Nat)
  | 0, _, _, _ => refuse .limit
  | levels + 1, v, field, remaining => do
    if remaining = 0 then refuse .limit
    else if !isObject v then refuse .invalid
    else if (get v "optional").any fun flag => !field || (asBool flag).isNone then refuse .invalid
    else
      let remaining := remaining - 1
      if field then
        let _ ← string v "description"
      let type ← string v "type"
      if type = "object" then
        let fields ← need .invalid ((get v "fields").bind asObject)
        fields.foldlM (fun (support, remaining) (name, child) => do
          if name.isEmpty then refuse .invalid
          else
            let (own, remaining) ← walk levels child true remaining
            .ok (support.and own, remaining)) (.known, remaining)
      else if type = "array" then
        walk levels (← need .invalid (get v "items")) false remaining
      else if type ∈ primitives then .ok (.known, remaining)
      else .ok (.unknown, remaining)

def validateSchema (v : Tree) : Except Stop Support := do
  let (support, _) ← walk 32 v false 65536
  .ok support

def validateCheck (v : Tree) : Except Stop Support := do
  let _ ← string v "description"
  let input ← validateSchema (← need .invalid (get v "input"))
  let output ← validateSchema (← need .invalid (get v "output"))
  .ok (input.and output)

/-! Definitions. -/

structure Definition where
  document : Document
  support : Support
deriving DecidableEq

/-- The version a tree names, if it names one. -/
def versionOf (v : Tree) : Except Stop (Option Nat) :=
  match get v "serviceVersion" with
  | none => .ok none
  | some version => integer version

/-- A definition has the identity of its offering. -/
def bindOffering (v : Tree) (o : Offering) : Except Stop Unit := do
  if (← string v "id") ≠ o.id then refuse .invalid
  else if (← string v "service") ≠ o.service then refuse .invalid
  else if (← string v "description") ≠ o.description then refuse .invalid
  else if (← versionOf v) ≠ some o.version then refuse .invalid
  else if ["creditIssuer", "price", "pricing", "checkPrice", "info"].any fun field =>
      (get v field).isSome then refuse .invalid
  else .ok ()

def Definition.parse (bytes : List UInt8) (o : Offering) (limits : Limits) :
    Except Stop Definition := do
  let document ← Document.parse bytes limits
  let v := document.value
  bindOffering v o
  let input ← validateSchema (← need .invalid (get v "input"))
  let output ← validateSchema (← need .invalid (get v "output"))
  let check ← validateCheck (← need .invalid (get v "check"))
  .ok ⟨document, if [input, output, check].contains .unknown then .unknown else .known⟩

/-- Every member of `left` but its id and version stands in `right` too. -/
def equivalent (left right : Tree) : Bool :=
  match left with
  | .object ms => (ms.filter fun m => m.1 ≠ "id" ∧ m.1 ≠ "serviceVersion").all fun m =>
      get right m.1 = some m.2
  | _ => false

def Definition.sameContract (d other : Definition) : Except Stop Bool := do
  let a := d.document.value
  let b := other.document.value
  if (← versionOf a) ≠ (← versionOf b) then .ok false
  else .ok (equivalent a b && equivalent b a)

/-! Responses. -/

def controlBytes : Nat := 1048576

def responseHead (kind : String) : Option (List UInt8) :=
  if kind = "board" then some (Json.utf8 "\x7b\"type\":\"board\",\"board\":".toList)
  else if kind = "definition" then
    some (Json.utf8 "\x7b\"type\":\"definition\",\"definition\":".toList)
  else none

def encodeResponse (kind : String) (document : Document) : Except Stop (List UInt8) := do
  let head ← need .unsupported (responseHead kind)
  let length ← need .limit ((checkedAdd head.length document.source.length).bind (checkedAdd · 1))
  if length > controlBytes then refuse .limit
  else .ok (head ++ document.source ++ [Json.closeBrace])

/-! Semantics. -/

/-- What trusted composition supplies. -/
structure Capabilities where
  understands : Offering → Bool
  contract : Offering → Definition → Except Error Unit
  terms : Offering → Except Error Unit
  precondition : String → Bool → Bool
  localSupport : Offering → Bool

/-- No local capability at all. -/
def Capabilities.unavailable : Capabilities where
  understands := fun _ => false
  contract := fun _ _ => .error .unsupported
  terms := fun _ => .error .unsupported
  precondition := fun name authenticated => name = "cr2se.identity" && authenticated
  localSupport := fun _ => false

def checkPreconditions (caps : Capabilities) (authenticated : Bool) (required : Tree) :
    Except Stop Unit := do
  let names ← need .invalid (asArray required)
  names.forM fun name => do
    let name ← need .invalid (asStr name)
    if !caps.precondition name authenticated then refuse .unsupported else .ok ()

def assess (caps : Capabilities) (o : Offering) (d : Definition) (authenticated localOnly : Bool) :
    Except Stop Unit := do
  if d.support ≠ .known ∨ !caps.understands o ∨ (localOnly && !caps.localSupport o) then
    refuse .unsupported
  else
    lift (caps.contract o d)
    lift (caps.terms o)
    optional o.source "preconditions" (checkPreconditions caps authenticated)

/-! What an accepted definition holds. -/

/-- The identity fields of a definition are those of the offering. -/
structure Binds (v : Tree) (o : Offering) : Prop where
  id : string v "id" = .ok o.id
  service : string v "service" = .ok o.service
  description : string v "description" = .ok o.description
  version : versionOf v = .ok (some o.version)

theorem bindOffering_ok {v : Tree} {o : Offering} (h : bindOffering v o = .ok ()) : Binds v o := by
  obtain ⟨id, hid, h⟩ := bind_ok.mp h
  obtain ⟨hi, h⟩ := guard_ok.mp h
  obtain ⟨service, hservice, h⟩ := bind_ok.mp h
  obtain ⟨hs, h⟩ := guard_ok.mp h
  obtain ⟨description, hdescription, h⟩ := bind_ok.mp h
  obtain ⟨hd, h⟩ := guard_ok.mp h
  obtain ⟨version, hversion, h⟩ := bind_ok.mp h
  obtain ⟨hv, -⟩ := guard_ok.mp h
  rw [not_not] at hi hs hd hv
  exact ⟨hi ▸ hid, hs ▸ hservice, hd ▸ hdescription, hv ▸ hversion⟩

theorem Definition.parse_ok {bytes : List UInt8} {o : Offering} {limits : Limits} {d : Definition}
    (h : Definition.parse bytes o limits = .ok d) :
    Document.parse bytes limits = .ok d.document ∧ Binds d.document.value o := by
  unfold Definition.parse at h
  obtain ⟨document, hd, h⟩ := bind_ok.mp h
  obtain ⟨⟨⟩, hbind, h⟩ := bind_ok.mp h
  obtain ⟨_, -, h⟩ := bind_ok.mp h
  obtain ⟨_, -, h⟩ := bind_ok.mp h
  obtain ⟨_, -, h⟩ := bind_ok.mp h
  obtain ⟨_, -, h⟩ := bind_ok.mp h
  obtain ⟨_, -, h⟩ := bind_ok.mp h
  obtain ⟨_, -, h⟩ := bind_ok.mp h
  obtain rfl := Except.ok.inj h
  exact ⟨hd, bindOffering_ok hbind⟩

/-! The comparison of contracts is an equivalence. -/

/-- A member that the comparison looks at. -/
def Compared (key : String) : Prop := key ≠ "id" ∧ key ≠ "serviceVersion"

theorem equivalent_iff {left right : Tree} : equivalent left right = true ↔
    ∃ ms, left = .object ms ∧ ∀ key v, (key, v) ∈ ms → Compared key → get right key = some v := by
  cases left with
  | object ms =>
    simp only [equivalent, List.all_eq_true, List.mem_filter, decide_eq_true_eq, Tree.object.injEq]
    constructor
    · intro h
      exact ⟨ms, rfl, fun key v hm hk => h (key, v) ⟨hm, hk⟩⟩
    · rintro ⟨_, rfl, h⟩ m ⟨hm, hk⟩
      exact h m.1 m.2 hm hk
  | null | bool | number | string | array => simp [equivalent]

theorem equivalent_refl {ms : List (String × Tree)} (hd : DistinctKeys ms) :
    equivalent (.object ms) (.object ms) = true :=
  equivalent_iff.mpr ⟨ms, rfl, fun _ _ hm _ => hd.lookup hm⟩

theorem equivalent_trans {a b c : Tree} (hab : equivalent a b = true)
    (hbc : equivalent b c = true) : equivalent a c = true := by
  obtain ⟨ms, rfl, hms⟩ := equivalent_iff.mp hab
  obtain ⟨ns, rfl, hns⟩ := equivalent_iff.mp hbc
  refine equivalent_iff.mpr ⟨ms, rfl, fun key v hm hk => ?_⟩
  exact hns key v (lookup_some (hms key v hm hk)) hk

/-- Two values of one contract. -/
structure SameContract (a b : Tree) : Prop where
  left : equivalent a b = true
  right : equivalent b a = true

theorem SameContract.symm {a b : Tree} (h : SameContract a b) : SameContract b a :=
  ⟨h.right, h.left⟩

theorem SameContract.trans {a b c : Tree} (h : SameContract a b) (h' : SameContract b c) :
    SameContract a c :=
  ⟨equivalent_trans h.left h'.left, equivalent_trans h'.right h.right⟩

theorem Definition.sameContract_ok {d other : Definition} (h : d.sameContract other = .ok true) :
    SameContract d.document.value other.document.value := by
  obtain ⟨a, -, h⟩ := bind_ok.mp h
  obtain ⟨b, -, h⟩ := bind_ok.mp h
  split_ifs at h with hne
  · cases h
  have hboth := (Bool.and_eq_true _ _).mp (Except.ok.inj h)
  exact ⟨hboth.1, hboth.2⟩

theorem Definition.sameContract_iff {d other : Definition} {version : Option Nat}
    (hd : versionOf d.document.value = .ok version)
    (ho : versionOf other.document.value = .ok version) :
    d.sameContract other = .ok true ↔ SameContract d.document.value other.document.value := by
  simp only [sameContract, hd, ho, bind, Except.bind, ne_eq, not_true_eq_false, if_false,
    Except.ok.injEq, Bool.and_eq_true]
  exact ⟨fun h => ⟨h.1, h.2⟩, fun h => ⟨h.left, h.right⟩⟩

/-! A response is a text with one more container around the document. -/

theorem encodeResponse_ok {kind : String} {document : Document} {bytes : List UInt8}
    (h : encodeResponse kind document = .ok bytes) : ∃ head, responseHead kind = some head ∧
      bytes = head ++ document.source ++ [Json.closeBrace] ∧ bytes.length ≤ controlBytes := by
  obtain ⟨head, hhead, h⟩ := bind_ok.mp h
  obtain ⟨length, hlength, h⟩ := bind_ok.mp h
  obtain ⟨hle, h⟩ := guard_ok.mp h
  obtain rfl := Except.ok.inj h
  refine ⟨head, need_ok.mp hhead, rfl, ?_⟩
  obtain ⟨n, hn, hsum⟩ := Option.bind_eq_some_iff.mp (need_ok.mp hlength)
  have hlength := (checkedAdd_some.mp hsum).1
  rw [(checkedAdd_some.mp hn).1] at hlength
  rw [List.length_append, List.length_append, List.length_singleton, ← hlength]
  exact Nat.not_lt.mp hle

/-- A string token without escapes. -/
def quoted (text : String) : List UInt8 :=
  Json.utf8 (Json.quotation :: (text.toList ++ [Json.quotation]))

theorem responseHead_ok {kind : String} {head : List UInt8} (h : responseHead kind = some head) :
    Json.IsString kind (quoted kind) ∧ head = Json.openBrace :: (quoted "type" ++ Json.colon ::
      (quoted kind ++ Json.comma :: (quoted kind ++ [Json.colon]))) := by
  unfold responseHead at h
  split_ifs at h with hb hd
  · obtain rfl := Option.some.inj h
    rw [hb]
    exact ⟨Json.decodeString_iff.mp (by decide +kernel), by decide +kernel⟩
  · obtain rfl := Option.some.inj h
    rw [hd]
    exact ⟨Json.decodeString_iff.mp (by decide +kernel), by decide +kernel⟩

theorem response_text {kind : String} {head source : List UInt8} {t : Tree}
    (h : responseHead kind = some head) (ht : Json.Text t source) :
    Json.Text (.object [("type", .string kind), (kind, t)]) (head ++ source ++ [Json.closeBrace]) := by
  obtain ⟨hkind, rfl⟩ := responseHead_ok h
  have htype : Json.IsString "type" (quoted "type") := Json.decodeString_iff.mp (by decide +kernel)
  have hgap : Json.Space [] := nofun
  have hmember := Json.Derives.members hgap htype hgap (.padded hgap (.string hkind) hgap)
    (.member hgap hkind hgap ht)
  have htext := Json.Derives.padded hgap (.object hmember) hgap
  simpa [Json.Text] using htext

end TalkSphere.Board
