import Mathlib.Data.List.Basic
import Mathlib.Data.Rat.Defs
import Mathlib.Tactic.Common

/-! JSON texts in UTF-8: their trees, and the grammar that says which bytes spell which
tree. Strings denote what their escapes denote, and numbers keep their spelling. -/

namespace Json

inductive Tree
  | null
  | bool (b : Bool)
  | number (token : List UInt8)
  | string (text : String)
  | array (items : List Tree)
  | object (members : List (String × Tree))

/-! The bytes of the grammar. -/

def quote : UInt8 := 0x22
def comma : UInt8 := 0x2C
def colon : UInt8 := 0x3A
def plus : UInt8 := 0x2B
def minus : UInt8 := 0x2D
def point : UInt8 := 0x2E
def zero : UInt8 := 0x30
def backslash : UInt8 := 0x5C
def openBracket : UInt8 := 0x5B
def closeBracket : UInt8 := 0x5D
def openBrace : UInt8 := 0x7B
def closeBrace : UInt8 := 0x7D

def nullToken : List UInt8 := [0x6E, 0x75, 0x6C, 0x6C]

def boolToken : Bool → List UInt8
  | true => [0x74, 0x72, 0x75, 0x65]
  | false => [0x66, 0x61, 0x6C, 0x73, 0x65]

def isSpace (b : UInt8) : Bool := b == 0x20 || b == 0x09 || b == 0x0D || b == 0x0A

def isDigit (b : UInt8) : Bool := zero ≤ b && b ≤ 0x39

def isMark (b : UInt8) : Bool := b == 0x65 || b == 0x45

def Space (bytes : List UInt8) : Prop := ∀ b ∈ bytes, isSpace b = true

/-- A nonempty run of digits. -/
def Digits (bytes : List UInt8) : Prop := bytes ≠ [] ∧ ∀ b ∈ bytes, isDigit b = true

/-! Numbers. -/

/-- The exponent of a number: its mark, its sign and its digits. -/
structure Exponent where
  mark : UInt8
  sign : Option UInt8
  digits : List UInt8
  isMark : isMark mark = true
  isSign : ∀ b ∈ sign, b = plus ∨ b = minus
  isDigits : Digits digits

structure Number where
  negative : Bool
  whole : List UInt8
  fraction : Option (List UInt8)
  exponent : Option Exponent
  isWhole : Digits whole
  noZero : whole.head? = some zero → whole.length = 1
  isFraction : ∀ digits ∈ fraction, Digits digits

def Exponent.spelling (e : Exponent) : List UInt8 := e.mark :: (e.sign.toList ++ e.digits)

def Number.spelling (n : Number) : List UInt8 :=
  (if n.negative then [minus] else []) ++ n.whole ++
    (n.fraction.elim [] fun digits => point :: digits) ++ n.exponent.elim [] Exponent.spelling

def IsNumber (token : List UInt8) : Prop := ∃ n : Number, n.spelling = token

/-! Strings. -/

/-- Characters in UTF-8. -/
def utf8 (chars : List Char) : List UInt8 := chars.flatMap String.utf8EncodeChar

def escape : Char := Char.ofNat 0x5C

def quotation : Char := Char.ofNat 0x22

/-- What follows the backslash of a short escape. -/
def shortEscape (e : Char) : Option Char :=
  if e.toNat = 0x22 then some quotation
  else if e.toNat = 0x5C then some escape
  else if e.toNat = 0x2F then some (Char.ofNat 0x2F)
  else if e.toNat = 0x62 then some (Char.ofNat 0x08)
  else if e.toNat = 0x66 then some (Char.ofNat 0x0C)
  else if e.toNat = 0x6E then some (Char.ofNat 0x0A)
  else if e.toNat = 0x72 then some (Char.ofNat 0x0D)
  else if e.toNat = 0x74 then some (Char.ofNat 0x09)
  else none

def hexDigit (c : Char) : Option Nat :=
  if 0x30 ≤ c.toNat ∧ c.toNat ≤ 0x39 then some (c.toNat - 0x30)
  else if 0x41 ≤ c.toNat ∧ c.toNat ≤ 0x46 then some (c.toNat - 0x37)
  else if 0x61 ≤ c.toNat ∧ c.toNat ≤ 0x66 then some (c.toNat - 0x57)
  else none

def hex4 (a b c d : Char) : Option Nat := do
  some (((← hexDigit a) * 16 + (← hexDigit b)) * 256 + ((← hexDigit c) * 16 + (← hexDigit d)))

/-- The scalar value of a pair of surrogates. -/
@[irreducible] def surrogates (high low : Nat) : Char :=
  Char.ofNat (0x10000 + (high - 0xD800) * 0x400 + (low - 0xDC00))

/-- The spellings of one character in a string; an escape denotes a scalar value. -/
inductive Item : List Char → Char → Prop
  | plain {c : Char} (printable : 0x20 ≤ c.toNat) (quote : c.toNat ≠ 0x22)
      (escape : c.toNat ≠ 0x5C) : Item [c] c
  | short {e c : Char} (h : shortEscape e = some c) : Item [escape, e] c
  | scalar {a b c d : Char} {n : Nat} (h : hex4 a b c d = some n)
      (range : n < 0xD800 ∨ 0xE000 ≤ n) : Item [escape, 'u', a, b, c, d] (Char.ofNat n)
  | pair {a b c d a' b' c' d' : Char} {high low : Nat} (h : hex4 a b c d = some high)
      (h' : hex4 a' b' c' d' = some low) (lead : 0xD800 ≤ high ∧ high < 0xDC00)
      (trail : 0xDC00 ≤ low ∧ low < 0xE000) :
      Item [escape, 'u', a, b, c, d, escape, 'u', a', b', c', d'] (surrogates high low)

/-- The body of a string, and the text it denotes. -/
inductive Chars : List Char → List Char → Prop
  | nil : Chars [] []
  | cons {spelled body text : List Char} {c : Char} (h : Item spelled c) (rest : Chars body text) :
      Chars (spelled ++ body) (c :: text)

def IsString (text : String) (token : List UInt8) : Prop :=
  ∃ body, Chars body text.toList ∧ token = utf8 (quotation :: (body ++ [quotation]))

/-! Values. -/

/-- A tree or a nonempty part of one. -/
inductive Phrase
  | value (t : Tree)
  | padded (t : Tree)
  | elements (items : List Tree)
  | members (members : List (String × Tree))

inductive Derives : Phrase → List UInt8 → Prop
  | null : Derives (.value .null) nullToken
  | bool (b : Bool) : Derives (.value (.bool b)) (boolToken b)
  | number {token : List UInt8} (h : IsNumber token) : Derives (.value (.number token)) token
  | string {text : String} {token : List UInt8} (h : IsString text token) :
      Derives (.value (.string text)) token
  | emptyArray {gap : List UInt8} (h : Space gap) :
      Derives (.value (.array [])) (openBracket :: (gap ++ [closeBracket]))
  | array {items : List Tree} {body : List UInt8} (h : Derives (.elements items) body) :
      Derives (.value (.array items)) (openBracket :: (body ++ [closeBracket]))
  | emptyObject {gap : List UInt8} (h : Space gap) :
      Derives (.value (.object [])) (openBrace :: (gap ++ [closeBrace]))
  | object {members : List (String × Tree)} {body : List UInt8}
      (h : Derives (.members members) body) :
      Derives (.value (.object members)) (openBrace :: (body ++ [closeBrace]))
  | padded {t : Tree} {before token after : List UInt8} (hb : Space before)
      (h : Derives (.value t) token) (ha : Space after) :
      Derives (.padded t) (before ++ (token ++ after))
  | element {t : Tree} {body : List UInt8} (h : Derives (.padded t) body) :
      Derives (.elements [t]) body
  | elements {t : Tree} {items : List Tree} {body rest : List UInt8} (h : Derives (.padded t) body)
      (hr : Derives (.elements items) rest) :
      Derives (.elements (t :: items)) (body ++ comma :: rest)
  | member {key : String} {t : Tree} {before token after body : List UInt8} (hb : Space before)
      (hk : IsString key token) (ha : Space after) (h : Derives (.padded t) body) :
      Derives (.members [(key, t)]) (before ++ (token ++ (after ++ colon :: body)))
  | members {key : String} {t : Tree} {members : List (String × Tree)}
      {before token after body rest : List UInt8} (hb : Space before) (hk : IsString key token)
      (ha : Space after) (h : Derives (.padded t) body) (hr : Derives (.members members) rest) :
      Derives (.members ((key, t) :: members))
        (before ++ (token ++ (after ++ colon :: (body ++ comma :: rest))))

/-- The bytes are one JSON text, and `t` is its tree. -/
def Text (t : Tree) (bytes : List UInt8) : Prop := Derives (.padded t) bytes

/-! Measures of a tree. -/

mutual

/-- How deep containers nest. -/
def Tree.depth : Tree → Nat
  | .array items => depths items + 1
  | .object members => memberDepths members + 1
  | _ => 0

def depths : List Tree → Nat
  | [] => 0
  | t :: ts => max t.depth (depths ts)

def memberDepths : List (String × Tree) → Nat
  | [] => 0
  | (_, t) :: ms => max t.depth (memberDepths ms)

end

mutual

/-- Values and members of objects. -/
def Tree.nodes : Tree → Nat
  | .array items => nodesOf items + 1
  | .object members => memberNodes members + 1
  | _ => 1

def nodesOf : List Tree → Nat
  | [] => 0
  | t :: ts => t.nodes + nodesOf ts

def memberNodes : List (String × Tree) → Nat
  | [] => 0
  | (_, t) :: ms => 1 + t.nodes + memberNodes ms

end

mutual

/-- A tree and all trees in it. -/
def Tree.subtrees : Tree → List Tree
  | .array items => .array items :: subtreesOf items
  | .object members => .object members :: memberSubtrees members
  | t => [t]

def subtreesOf : List Tree → List Tree
  | [] => []
  | t :: ts => t.subtrees ++ subtreesOf ts

def memberSubtrees : List (String × Tree) → List Tree
  | [] => []
  | (_, t) :: ms => t.subtrees ++ memberSubtrees ms

end

/-- The strings of a tree, keys among them. -/
def Tree.strings (t : Tree) : List String := t.subtrees.flatMap fun
  | .string text => [text]
  | .object members => members.map Prod.fst
  | _ => []

/-! Equality of trees can be decided. -/

mutual

def Tree.same : Tree → Tree → Bool
  | .null, .null => true
  | .bool b, .bool b' => b == b'
  | .number token, .number token' => token == token'
  | .string text, .string text' => text == text'
  | .array items, .array items' => sameItems items items'
  | .object members, .object members' => sameMembers members members'
  | _, _ => false

def sameItems : List Tree → List Tree → Bool
  | [], [] => true
  | t :: ts, t' :: ts' => t.same t' && sameItems ts ts'
  | _, _ => false

def sameMembers : List (String × Tree) → List (String × Tree) → Bool
  | [], [] => true
  | (key, t) :: ms, (key', t') :: ms' => key == key' && t.same t' && sameMembers ms ms'
  | _, _ => false

end

mutual

theorem Tree.same_iff : ∀ t t' : Tree, t.same t' = true ↔ t = t'
  | .null, t' => by cases t' <;> simp [Tree.same]
  | .bool b, t' => by cases t' <;> simp [Tree.same]
  | .number token, t' => by cases t' <;> simp [Tree.same]
  | .string text, t' => by cases t' <;> simp [Tree.same]
  | .array items, t' => by cases t' <;> simp [Tree.same, sameItems_iff]
  | .object members, t' => by cases t' <;> simp [Tree.same, sameMembers_iff]

theorem sameItems_iff : ∀ ts ts' : List Tree, sameItems ts ts' = true ↔ ts = ts'
  | [], ts' => by cases ts' <;> simp [sameItems]
  | t :: ts, ts' => by cases ts' <;> simp [sameItems, Tree.same_iff t, sameItems_iff ts]

theorem sameMembers_iff : ∀ ms ms' : List (String × Tree), sameMembers ms ms' = true ↔ ms = ms'
  | [], ms' => by cases ms' <;> simp [sameMembers]
  | (key, t) :: ms, ms' => by
    cases ms' <;> simp [sameMembers, Prod.ext_iff, Tree.same_iff t, sameMembers_iff ms]

end

instance : DecidableEq Tree := fun t t' => decidable_of_iff _ (Tree.same_iff t t')

end Json
