import TalkSphere.Codec
import TalkSphere.Header
import TalkSphere.JsonParser
import TalkSphere.Outcome

/-! Board documents: the resource policy and the bounded scan that every document passes
before its tree is built. The scan indexes the source bytes; where an index or a slice could
leave them the model says so, and `Scan.value` takes the calls it may still make as fuel. -/

namespace TalkSphere.Board

inductive Error
  | invalid
  | unsupported
  | denied
  | limit
  | missing
  | stale
  | cancelled
  | storage
  | unknown
deriving DecidableEq, Repr

/-! Limits. -/

def recordFixedBytes : Nat := 64
def recordEntryBytes : Nat := 12

structure Limits where
  documentBytes : Nat := 1048576
  depth : Nat := 31
  nodes : Nat := 65536
  stringBytes : Nat := 1048576
  arrayElements : Nat := 4096
  definitions : Nat := 1024
  publicationBytes : Nat := 16777216
  cacheEntries : Nat := 64
  snapshots : Nat := 128
  cacheSeconds : Nat := 300
deriving DecidableEq, Repr

def checkedMul (a b : Nat) : Option Nat :=
  if a * b ≤ usizeMax then some (a * b) else none

/-- The bytes a private record may need. -/
def Limits.envelope (limits : Limits) : Option Nat := do
  let n ← checkedMul limits.publicationBytes 2
  let d ← checkedMul limits.definitions recordEntryBytes
  let n ← checkedAdd n d
  checkedAdd n recordFixedBytes

def Limits.validate (limits : Limits) : Except Error Unit :=
  let values := [limits.documentBytes, limits.depth, limits.nodes, limits.stringBytes,
    limits.arrayElements, limits.definitions, limits.publicationBytes, limits.cacheEntries,
    limits.snapshots]
  if limits.envelope.isNone ∨ 0 ∈ values ∨ limits.cacheSeconds = 0 ∨ limits.depth > 31 ∨
      limits.documentBytes > 1048576 ∨ limits.stringBytes > limits.documentBytes ∨
      limits.publicationBytes < limits.documentBytes then .error .invalid
  else .ok ()

/-- A policy that passes the check. -/
structure Limits.Valid (limits : Limits) : Prop where
  envelope : limits.envelope.isSome
  positive : 0 < limits.documentBytes ∧ 0 < limits.depth ∧ 0 < limits.nodes ∧
    0 < limits.stringBytes ∧ 0 < limits.arrayElements ∧ 0 < limits.definitions ∧
    0 < limits.publicationBytes ∧ 0 < limits.cacheEntries ∧ 0 < limits.snapshots ∧
    0 < limits.cacheSeconds
  depth : limits.depth ≤ 31
  documentBytes : limits.documentBytes ≤ 1048576
  stringBytes : limits.stringBytes ≤ limits.documentBytes
  publicationBytes : limits.documentBytes ≤ limits.publicationBytes

theorem Limits.validate_ok {limits : Limits} : limits.validate = .ok () ↔ limits.Valid := by
  unfold Limits.validate
  constructor
  · intro h
    dsimp only at h
    split_ifs at h with hbad
    simp only [List.mem_cons, List.not_mem_nil, or_false, not_or, Option.isNone_iff_eq_none] at hbad
    refine ⟨Option.isSome_iff_ne_none.mpr hbad.1, ?_, ?_, ?_, ?_, ?_⟩ <;> omega
  · rintro ⟨henvelope, hpos, hdepth, hdocument, hstring, hpublication⟩
    refine if_neg ?_
    simp only [List.mem_cons, List.not_mem_nil, or_false, not_or, Option.isNone_iff_eq_none]
    refine ⟨Option.isSome_iff_ne_none.mp henvelope, ?_⟩
    omega

example : ({} : Limits).validate = .ok () := by decide

/-! The scan. -/

/-- Why a scan ends early: the source's own error, or one of the faults it must not have. -/
inductive Stop
  | refused (e : Error)
  | outOfRange
  | unfinished
deriving DecidableEq

structure Scan where
  bytes : List UInt8
  pos : Nat
  nodes : Nat
  limits : Limits

namespace Scan

open Json (isSpace isStop quote comma colon backslash openBracket closeBracket openBrace closeBrace)

/-- The bytes from the position on. -/
def rest (s : Scan) : List UInt8 := s.bytes.drop s.pos

def slice (s : Scan) (start : Nat) : Except Stop (List UInt8) :=
  match Codec.slice? s.bytes start s.pos with
  | some bytes => .ok bytes
  | none => .error .outOfRange

/-- Where a loop over the bytes that meet `p` stops. -/
def skipWhile (p : UInt8 → Bool) : List UInt8 → Nat → Nat
  | [], pos => pos
  | b :: rest, pos => if p b then skipWhile p rest (pos + 1) else pos

def space (s : Scan) : Scan := { s with pos := skipWhile isSpace s.rest s.pos }

def node (s : Scan) : Except Stop Scan :=
  let s := { s with nodes := s.nodes + 1 }
  if s.nodes > s.limits.nodes then .error (.refused .limit) else .ok s

/-- The loop of `string`, from behind the first quotation mark. -/
def stringEnd : List UInt8 → Nat → Option Nat
  | [], _ => none
  | b :: rest, pos =>
    if b = quote then some (pos + 1)
    else if b = backslash then
      match rest with
      | [] => none
      | _ :: rest => stringEnd rest (pos + 2)
    else stringEnd rest (pos + 1)

def string (s : Scan) : Except Stop (String × Scan) :=
  let start := s.pos
  match stringEnd (s.bytes.drop (start + 1)) (start + 1) with
  | none => .error (.refused .invalid)
  | some pos => do
    let s := { s with pos }
    match Json.decodeString (← s.slice start) with
    | none => .error (.refused .invalid)
    | some text =>
      if text.utf8ByteSize > s.limits.stringBytes then .error (.refused .limit) else .ok (text, s)

/-- A literal or a number, delimited by what cannot follow one. -/
def scalar (s : Scan) : Except Stop Scan :=
  let start := s.pos
  let s := { s with pos := skipWhile (!isStop ·) s.rest s.pos }
  if start = s.pos then .error (.refused .invalid)
  else do
    match Json.decodeScalar (← s.slice start) with
    | none => .error (.refused .invalid)
    | some _ => .ok s

/-- One byte that has to stand at the position. -/
def eat (b : UInt8) (s : Scan) : Except Stop Scan :=
  if s.bytes[s.pos]? = some b then .ok { s with pos := s.pos + 1 } else .error (.refused .invalid)

/-- The key of a member and the colon behind it; `keys` are those of the members before. -/
def key (keys : List String) (s : Scan) : Except Stop (List String × Scan) := do
  let s ← s.space.node
  if s.bytes[s.pos]? ≠ some quote then .error (.refused .invalid)
  let (text, s) ← s.string
  if text ∈ keys then .error (.refused .invalid)
  let s ← s.space.eat colon
  .ok (text :: keys, s)

/-- The end byte of a container. -/
def endOf (object : Bool) : UInt8 := if object then closeBrace else closeBracket

mutual

def value : Nat → Nat → Scan → Except Stop Scan
  | 0, _, _ => .error .unfinished
  | fuel + 1, depth, s => do
    let s ← s.space.node
    match s.bytes[s.pos]? with
    | none => .error (.refused .invalid)
    | some b =>
      if b = openBrace ∨ b = openBracket then
        if depth ≥ s.limits.depth then .error (.refused .limit)
        else
          match Codec.at? s.bytes s.pos with
          | none => .error .outOfRange
          | some b =>
            let object := b == openBrace
            let s := { s with pos := s.pos + 1 }.space
            if s.bytes[s.pos]? = some (endOf object) then .ok { s with pos := s.pos + 1 }
            else items fuel depth object [] 0 s
      else if b = quote then do
        let (_, s) ← s.string
        .ok s
      else s.scalar

/-- The loop over the members of an object or the elements of an array. -/
def items : Nat → Nat → Bool → List String → Nat → Scan → Except Stop Scan
  | 0, _, _, _, _, _ => .error .unfinished
  | fuel + 1, depth, object, keys, count, s => do
    let (keys, count, s) ←
      if object then do
        let (keys, s) ← s.key keys
        .ok (keys, count, s)
      else if count + 1 > s.limits.arrayElements then .error (.refused .limit)
      else .ok (keys, count + 1, s)
    let s ← value fuel (depth + 1) s
    let s := s.space
    match s.bytes[s.pos]? with
    | none => .error (.refused .invalid)
    | some b =>
      if b = endOf object then .ok { s with pos := s.pos + 1 }
      else if b = comma then items fuel depth object keys count { s with pos := s.pos + 1 }
      else .error (.refused .invalid)

end

end Scan

/-- The structural preflight of a whole document. -/
def scan (bytes : List UInt8) (limits : Limits) : Except Stop Unit := do
  let s ← Scan.value (2 * bytes.length + 1) 0 ⟨bytes, 0, 0, limits⟩
  let s := s.space
  if s.pos ≠ bytes.length then .error (.refused .invalid) else .ok ()

end TalkSphere.Board
