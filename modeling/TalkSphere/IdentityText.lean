import TalkSphere.Api
import TalkSphere.Control
import TalkSphere.JsonParser
import TalkSphere.Outcome
import TalkSphere.Regrouping

/-! Identity texts. The 256 bits of an id are written as 52 symbols of five bits, the last one
padded with four zero bits, and read back from either case of the letters. -/

namespace TalkSphere.IdentityText

open Outcome (bind_ok)
open Regrouping (Between value)

/-- Why a codec ends early: the refusal of the source, or an index, shift or mask out of range. -/
inductive Stop
  | invalidInput
  | outOfRange
deriving DecidableEq, Repr

/-! Operations on the accumulator, which fail where a bit or the shift itself would be lost. -/

def shiftLeft (x : UInt16) (n : Nat) : Except Stop UInt16 :=
  if n < 16 ∧ x.toNat * 2 ^ n < 2 ^ 16 then .ok (x <<< n.toUInt16) else .error .outOfRange

def shiftRight (x : UInt16) (n : Nat) : Except Stop UInt16 :=
  if n < 16 then .ok (x >>> n.toUInt16) else .error .outOfRange

def mask (bits : Nat) : Except Stop UInt16 := do
  .ok ((← shiftLeft 1 bits) - 1)

/-! Formatting. -/

def alphabet : List Char :=
  ['A', 'B', 'C', 'D', 'E', 'F', 'G', 'H', 'I', 'J', 'K', 'L', 'M', 'N', 'O', 'P', 'Q', 'R',
    'S', 'T', 'U', 'V', 'W', 'X', 'Y', 'Z', '2', '3', '4', '5', '6', '7']

def symbolAt (index : UInt16) : Except Stop Char :=
  match alphabet[index.toNat]? with
  | some c => .ok c
  | none => .error .outOfRange

/-- The inner loop: symbols leave while five bits are there. -/
def drain (accumulator : UInt16) : Nat → List Char → Except Stop (List Char × Nat)
  | bits + 5, output => do
    let c ← symbolAt ((← shiftRight accumulator bits) &&& 31)
    drain accumulator bits (output ++ [c])
  | bits, output => .ok (output, bits)

structure Packed where
  output : List Char := []
  accumulator : UInt16 := 0
  bits : Nat := 0

def Packed.push (p : Packed) (byte : UInt8) : Except Stop Packed := do
  let accumulator := (← shiftLeft p.accumulator 8) ||| byte.toUInt16
  let (output, bits) ← drain accumulator (p.bits + 8) p.output
  .ok ⟨output, accumulator &&& (← mask bits), bits⟩

def Packed.last (p : Packed) : Except Stop (List Char) := do
  if p.bits ≠ 0 then
    if p.bits > 5 then .error .outOfRange
    else .ok (p.output ++ [← symbolAt (← shiftLeft p.accumulator (5 - p.bits))])
  else .ok p.output

def format (id : IdentityId) : Except Stop String := do
  let p ← id.bytes.toList.foldlM Packed.push {}
  .ok ("cr2se:" ++ String.ofList (← p.last))

/-! Parsing. -/

/-- The value of one symbol, in either case. -/
def symbol (b : UInt8) : Option UInt8 :=
  if 0x41 ≤ b ∧ b ≤ 0x5A then some (b - 0x41)
  else if 0x61 ≤ b ∧ b ≤ 0x7A then some (b - 0x61)
  else if 0x32 ≤ b ∧ b ≤ 0x37 then some (b - 0x32 + 26)
  else none

structure Unpacking where
  bytes : Vector UInt8 32 := Vector.replicate 32 0
  offset : Nat := 0
  accumulator : UInt16 := 0
  bits : Nat := 0

def Unpacking.push (u : Unpacking) (byte : UInt8) : Except Stop Unpacking :=
  match symbol byte with
  | none => .error .invalidInput
  | some v => do
    let accumulator := (← shiftLeft u.accumulator 5) ||| v.toUInt16
    let bits := u.bits + 5
    if bits ≥ 8 then
      let bits := bits - 8
      let high ← shiftRight accumulator bits
      if h : u.offset < 32 then
        .ok ⟨u.bytes.set u.offset high.toUInt8 h, u.offset + 1, accumulator &&& (← mask bits), bits⟩
      else .error .outOfRange
    else .ok { u with accumulator, bits }

/-- The loop over the symbols, and the check of the unused bits. -/
def parseSymbols (symbols : List UInt8) : Except Stop IdentityId := do
  let u ← symbols.foldlM Unpacking.push {}
  if u.accumulator ≠ 0 then .error .invalidInput else .ok ⟨u.bytes⟩

def parse (text : String) : Except Stop IdentityId :=
  if text.utf8ByteSize ≠ 58 ∨ !text.startsWith "cr2se:" then .error .invalidInput
  else parseSymbols ((utf8 text).drop 6)

/-! The accumulator as a number. -/

section

variable {x y : UInt16} {n bits : Nat}

theorem toNat_toUInt16 (h : n < 16) : n.toUInt16.toNat % 16 = n := by
  simp only [Nat.toUInt16_eq, UInt16.toNat_ofNat']
  omega

theorem shiftLeft_ok (hn : n < 16) (hx : x.toNat * 2 ^ n < 2 ^ 16) :
    ∃ y, shiftLeft x n = .ok y ∧ y.toNat = x.toNat * 2 ^ n := by
  refine ⟨_, if_pos ⟨hn, hx⟩, ?_⟩
  rw [UInt16.toNat_shiftLeft, toNat_toUInt16 hn, Nat.shiftLeft_eq]
  exact Nat.mod_eq_of_lt hx

theorem shiftRight_ok (hn : n < 16) :
    ∃ y, shiftRight x n = .ok y ∧ y.toNat = x.toNat / 2 ^ n := by
  refine ⟨_, if_pos hn, ?_⟩
  rw [UInt16.toNat_shiftRight, toNat_toUInt16 hn, Nat.shiftRight_eq_div_pow]

theorem mask_ok (hb : bits < 16) : ∃ m, mask bits = .ok m ∧ ∀ x : UInt16,
    (x &&& m).toNat = x.toNat % 2 ^ bits := by
  have hone : (1 : UInt16).toNat * 2 ^ bits < 2 ^ 16 := by
    rw [show (1 : UInt16).toNat = 1 from rfl, Nat.one_mul]
    exact Nat.pow_lt_pow_right Nat.one_lt_two hb
  obtain ⟨y, hy, hvalue⟩ := shiftLeft_ok hb hone
  refine ⟨y - 1, by rw [mask, hy]; rfl, fun x => ?_⟩
  rw [show (1 : UInt16).toNat = 1 from rfl, Nat.one_mul] at hvalue
  have hle : (1 : UInt16) ≤ y := by
    rw [UInt16.le_iff_toNat_le, hvalue]
    exact Nat.two_pow_pos bits
  rw [UInt16.toNat_and, UInt16.toNat_sub_of_le _ _ hle, hvalue]
  exact Nat.and_two_pow_sub_one_eq_mod _ _

theorem toNat_or {w : Nat} {d : UInt8} (hx : x.toNat = y.toNat * 2 ^ w) (hd : d.toNat < 2 ^ w) :
    (x ||| d.toUInt16).toNat = y.toNat * 2 ^ w + d.toNat := by
  rw [UInt16.toNat_or, hx, UInt8.toNat_toUInt16, Nat.mul_comm, Nat.two_pow_add_eq_or_of_lt hd]

end

/-! Formatting regroups the bytes. -/

/-- Symbols that stand for digits. -/
def Shows (output : List Char) (digits : List Nat) : Prop :=
  List.Forall₂ (fun c d => alphabet[d]? = some c) output digits

theorem symbolAt_ok {i : UInt16} (hi : i.toNat < 32) :
    ∃ c, symbolAt i = .ok c ∧ alphabet[i.toNat]? = some c := by
  have hlt : i.toNat < alphabet.length := hi
  refine ⟨alphabet[i.toNat], ?_, List.getElem?_eq_getElem hlt⟩
  rw [symbolAt, List.getElem?_eq_getElem hlt]

theorem Shows.snoc {output : List Char} {digits : List Nat} {c : Char} {d : Nat}
    (h : Shows output digits) (hc : alphabet[d]? = some c) :
    Shows (output ++ [c]) (digits ++ [d]) :=
  List.rel_append h (.cons hc .nil)

theorem Shows.mem_alphabet {output : List Char} {digits : List Nat} (h : Shows output digits)
    {c : Char} (hc : c ∈ output) : c ∈ alphabet := by
  induction h with
  | nil => cases hc
  | cons hd _ ih =>
    rcases List.mem_cons.mp hc with rfl | hc
    · exact List.mem_of_getElem? hd
    · exact ih hc

theorem drain_ok {accumulator : UInt16} {taken : List Nat} (bits : Nat) {output : List Char}
    {given : List Nat} (hbits : bits < 16)
    (h : Between 8 5 taken given (accumulator.toNat % 2 ^ bits) bits) (hs : Shows output given) :
    ∃ output' given' bits', drain accumulator bits output = .ok (output', bits') ∧ bits' < 5 ∧
      Between 8 5 taken given' (accumulator.toNat % 2 ^ bits') bits' ∧ Shows output' given' := by
  induction bits using Nat.strongRecOn generalizing output given with
  | ind bits ih =>
    by_cases hlt : bits < 5
    · refine ⟨output, given, bits, ?_, hlt, h, hs⟩
      unfold drain
      split
      · omega
      · rfl
    · obtain ⟨rest, rfl⟩ : ∃ rest, bits = rest + 5 := ⟨bits - 5, by omega⟩
      obtain ⟨high, hhigh, hvalue⟩ := shiftRight_ok (x := accumulator) (show rest < 16 by omega)
      have hindex : (high &&& 31).toNat = accumulator.toNat / 2 ^ rest % 2 ^ 5 := by
        rw [UInt16.toNat_and, hvalue]
        exact Nat.and_two_pow_sub_one_eq_mod _ 5
      obtain ⟨c, hc, hshows⟩ := symbolAt_ok (i := high &&& 31) (by
        rw [hindex]
        exact Nat.mod_lt _ (by decide))
      have hdigit : accumulator.toNat % 2 ^ (rest + 5) / 2 ^ rest = (high &&& 31).toNat := by
        rw [hindex, pow_add, Nat.mod_mul_right_div_self]
      have hgive := h.give
      rw [hdigit, Nat.mod_mod_of_dvd _ (Nat.pow_dvd_pow 2 (Nat.le_add_right rest 5))] at hgive
      obtain ⟨output', given', bits', hdrain, hrest⟩ :=
        ih rest (by omega) (by omega) hgive (hs.snoc hshows)
      refine ⟨output', given', bits', ?_, hrest⟩
      rw [drain]
      exact bind_ok.mpr ⟨high, hhigh, bind_ok.mpr ⟨c, hc, hdrain⟩⟩

/-- What the loop over the bytes holds. -/
structure Packs (taken given : List Nat) (p : Packed) : Prop where
  between : Between 8 5 taken given p.accumulator.toNat p.bits
  bits : p.bits < 5
  shows : Shows p.output given

theorem Packs.push {taken given : List Nat} {p : Packed} (h : Packs taken given p) (byte : UInt8) :
    ∃ given' p', p.push byte = .ok p' ∧ Packs (taken ++ [byte.toNat]) given' p' := by
  have hsmall : p.accumulator.toNat < 2 ^ 5 :=
    h.between.rest.trans_le (Nat.pow_le_pow_right (by decide) h.bits.le)
  obtain ⟨x, hx, hvalue⟩ := shiftLeft_ok (x := p.accumulator) (show 8 < 16 by decide) (by omega)
  have hacc := toNat_or (d := byte) hvalue byte.toNat_lt
  have htake := h.between.take (d := byte.toNat) byte.toNat_lt
  rw [← hacc] at htake
  have hmod := Nat.mod_eq_of_lt htake.rest
  have hbits := h.bits
  obtain ⟨output, given', bits, hdrain, hlt, hbetween, hshows⟩ :=
    drain_ok (p.bits + 8) (by omega) (hmod.symm ▸ htake) h.shows
  obtain ⟨m, hm, hmask⟩ := mask_ok (show bits < 16 by omega)
  refine ⟨given', ⟨output, (x ||| byte.toUInt16) &&& m, bits⟩, ?_, ?_, hlt, hshows⟩
  · refine bind_ok.mpr ⟨x, hx, bind_ok.mpr ⟨(output, bits), hdrain, ?_⟩⟩
    exact bind_ok.mpr ⟨m, hm, rfl⟩
  · rw [hmask]
    exact hbetween

theorem packs_bytes (bytes : List UInt8) : ∃ given p, bytes.foldlM Packed.push {} = .ok p ∧
    Packs (bytes.map UInt8.toNat) given p := by
  induction bytes using List.reverseRecOn with
  | nil => exact ⟨[], {}, rfl, Regrouping.between_nil 8 5, by decide, .nil⟩
  | append_singleton bytes byte ih =>
    obtain ⟨given, p, hp, hpacks⟩ := ih
    obtain ⟨given', p', hpush, hpacks'⟩ := hpacks.push byte
    refine ⟨given', p', ?_, by simpa using hpacks'⟩
    rw [List.foldlM_append]
    exact bind_ok.mpr ⟨p, hp, bind_ok.mpr ⟨p', hpush, rfl⟩⟩

/-- The digits of an id: its bits, and four zero bits below. -/
structure Digits (id : IdentityId) (digits : List Nat) : Prop where
  length : digits.length = 52
  small : ∀ d ∈ digits, d < 2 ^ 5
  value : value 5 digits = value 8 (id.bytes.toList.map UInt8.toNat) * 16

theorem format_ok (id : IdentityId) : ∃ output digits,
    format id = .ok ("cr2se:" ++ String.ofList output) ∧ Shows output digits ∧ Digits id digits := by
  obtain ⟨given, p, hp, hpacks⟩ := packs_bytes id.bytes.toList
  have hcount := hpacks.between.bits
  have hlt := hpacks.bits
  rw [List.length_map, Vector.length_toList] at hcount
  have hbits : p.bits = 1 := by omega
  have hlength : given.length = 51 := by omega
  have hacc := hpacks.between.rest
  rw [hbits] at hacc
  obtain ⟨x, hx, hvalue⟩ := shiftLeft_ok (x := p.accumulator) (show 4 < 16 by decide) (by omega)
  obtain ⟨c, hc, hshows⟩ := symbolAt_ok (i := x) (by omega)
  refine ⟨p.output ++ [c], given ++ [x.toNat], ?_, hpacks.shows.snoc hshows, ?_, ?_, ?_⟩
  · refine bind_ok.mpr ⟨p, hp, bind_ok.mpr ⟨p.output ++ [c], ?_, rfl⟩⟩
    rw [Packed.last, hbits]
    exact bind_ok.mpr ⟨x, hx, bind_ok.mpr ⟨c, hc, rfl⟩⟩
  · simp [hlength]
  · intro d hd
    rcases List.mem_append.mp hd with hd | hd
    · exact hpacks.between.given d hd
    · rw [List.mem_singleton.mp hd]
      omega
  · rw [Regrouping.value_snoc, hpacks.between.spelled, hbits, hvalue]
    ring

/-! Parsing regroups the symbols. -/

/-- Bytes that are symbols, in either case, of digits. -/
def Spells (bytes : List UInt8) (digits : List Nat) : Prop :=
  List.Forall₂ (fun b d => (symbol b).map UInt8.toNat = some d) bytes digits

theorem symbol_lt {b v : UInt8} (h : symbol b = some v) : v.toNat < 2 ^ 5 := by
  have hall : ∀ n : Fin 256, ((symbol (UInt8.ofFin n)).map UInt8.toNat).all (· < 2 ^ 5) = true := by
    decide +kernel
  have hb := hall b.toFin
  rw [show UInt8.ofFin b.toFin = b from rfl, h] at hb
  simpa using hb

structure Unpacks (taken : List Nat) (u : Unpacking) : Prop where
  between : Between 5 8 taken ((u.bytes.toList.take u.offset).map UInt8.toNat)
    u.accumulator.toNat u.bits
  bits : u.bits < 8
  offset : u.offset ≤ 32

theorem Unpacks.push {taken : List Nat} {u : Unpacking} (h : Unpacks taken u)
    (hroom : taken.length < 52) {b v : UInt8} (hb : symbol b = some v) :
    ∃ u', u.push b = .ok u' ∧ Unpacks (taken ++ [v.toNat]) u' := by
  have hsmall : u.accumulator.toNat < 2 ^ 8 :=
    h.between.rest.trans_le (Nat.pow_le_pow_right (by decide) h.bits.le)
  obtain ⟨x, hx, hvalue⟩ := shiftLeft_ok (x := u.accumulator) (show 5 < 16 by decide) (by omega)
  have hacc := toNat_or (d := v) hvalue (symbol_lt hb)
  have htake := h.between.take (symbol_lt hb)
  rw [← hacc] at htake
  have hcount := h.between.bits
  have hbits := h.bits
  have hoffset := h.offset
  rw [List.length_map, List.length_take, Vector.length_toList] at hcount
  unfold Unpacking.push
  rw [hb]
  by_cases hfull : u.bits + 5 ≥ 8
  · obtain ⟨rest, hrest⟩ : ∃ rest, u.bits + 5 = rest + 8 := ⟨u.bits + 5 - 8, by omega⟩
    have hlt : rest < 8 := by omega
    have hroom : u.offset < 32 := by omega
    obtain ⟨high, hhigh, hhighvalue⟩ := shiftRight_ok (x := x ||| v.toUInt16) (show rest < 16 by omega)
    obtain ⟨m, hm, hmask⟩ := mask_ok (show rest < 16 by omega)
    rw [hrest] at htake
    have hgive := htake.give
    rw [← hhighvalue] at hgive
    have hhighlt : high.toNat < 2 ^ 8 := hgive.given _ (List.mem_append_right _ List.mem_cons_self)
    refine ⟨⟨u.bytes.set u.offset high.toUInt8 hroom, u.offset + 1, (x ||| v.toUInt16) &&& m, rest⟩,
      ?_, ?_, hlt, hroom⟩
    · refine bind_ok.mpr ⟨x, hx, ?_⟩
      simp only [hrest, show rest + 8 ≥ 8 from Nat.le_add_left 8 rest, if_true, Nat.add_sub_cancel]
      refine bind_ok.mpr ⟨high, hhigh, ?_⟩
      rw [dif_pos hroom]
      exact bind_ok.mpr ⟨m, hm, rfl⟩
    · have hset : ((u.bytes.set u.offset high.toUInt8 hroom).toList.take (u.offset + 1)).map
          UInt8.toNat = (u.bytes.toList.take u.offset).map UInt8.toNat ++ [high.toNat] := by
        have hbyte : high.toUInt8.toNat = high.toNat := by
          rw [UInt16.toNat_toUInt8, Nat.mod_eq_of_lt hhighlt]
        rw [Vector.toList_set, List.take_add_one, List.take_set_of_le le_rfl,
          List.getElem?_set_self (by simpa using hroom), List.map_append, Option.toList_some,
          List.map_singleton, hbyte]
      rw [hmask, hset]
      exact hgive
  · have hlt : u.bits + 5 < 8 := Nat.lt_of_not_ge hfull
    refine ⟨{ u with accumulator := x ||| v.toUInt16, bits := u.bits + 5 }, ?_, htake, hlt, hoffset⟩
    refine bind_ok.mpr ⟨x, hx, ?_⟩
    rw [if_neg hfull]

/-- The loop over the symbols of a text that is not too long ends well, or at a byte that is no
symbol. -/
theorem unpacks_body {body : List UInt8} (hlength : body.length ≤ 52) :
    (∃ digits u, Spells body digits ∧ body.foldlM Unpacking.push {} = .ok u ∧ Unpacks digits u) ∨
      (∃ b ∈ body, symbol b = none) ∧ body.foldlM Unpacking.push {} = .error .invalidInput := by
  induction body using List.reverseRecOn with
  | nil => exact .inl ⟨[], {}, .nil, rfl, Regrouping.between_nil 5 8, by decide, by decide⟩
  | append_singleton body b ih =>
    rw [List.length_append, List.length_singleton] at hlength
    rw [List.foldlM_append]
    rcases ih (by omega) with ⟨digits, u, hspells, hu, hunpacks⟩ | ⟨⟨b', hb', hnone⟩, herror⟩
    · cases hb : symbol b with
      | none =>
        refine .inr ⟨⟨b, List.mem_append_right _ List.mem_cons_self, hb⟩, ?_⟩
        rw [hu]
        simp [bind, Except.bind, Unpacking.push, hb]
      | some v =>
        have hroom : digits.length < 52 := by
          rw [← hspells.length_eq]
          omega
        obtain ⟨u', hpush, hunpacks'⟩ := hunpacks.push hroom hb
        refine .inl ⟨digits ++ [v.toNat], u', List.rel_append hspells (.cons (by simp [hb]) .nil), ?_,
          hunpacks'⟩
        exact bind_ok.mpr ⟨u, hu, bind_ok.mpr ⟨u', hpush, rfl⟩⟩
    · refine .inr ⟨⟨b', List.mem_append_left _ hb', hnone⟩, ?_⟩
      rw [herror]
      rfl

theorem Spells.symbol_ne {body : List UInt8} {digits : List Nat} (h : Spells body digits) {b : UInt8}
    (hb : b ∈ body) : symbol b ≠ none := by
  induction h with
  | nil => cases hb
  | cons hfirst _ ih =>
    rcases List.mem_cons.mp hb with rfl | hb
    · intro hnone
      simp [hnone] at hfirst
    · exact ih hb

theorem Spells.small {body : List UInt8} {digits : List Nat} (h : Spells body digits) :
    ∀ d ∈ digits, d < 2 ^ 5 := by
  induction h with
  | nil => nofun
  | cons hfirst _ ih =>
    obtain ⟨v, hv, rfl⟩ := Option.map_eq_some_iff.mp hfirst
    exact List.forall_mem_cons.mpr ⟨symbol_lt hv, ih⟩

theorem Spells.unique {body : List UInt8} {ds es : List Nat} (h : Spells body ds)
    (h' : Spells body es) : ds = es := by
  induction h generalizing es with
  | nil => cases h'; rfl
  | cons hfirst _ ih =>
    cases h' with
    | cons hfirst' hrest => rw [Option.some.inj (hfirst.symm.trans hfirst'), ih hrest]

theorem Unpacks.complete {digits : List Nat} {u : Unpacking} (h : Unpacks digits u)
    (hlength : digits.length = 52) : u.offset = 32 ∧ u.accumulator.toNat < 16 ∧
      value 5 digits = value 8 (u.bytes.toList.map UInt8.toNat) * 16 + u.accumulator.toNat := by
  have hcount := h.between.bits
  have hbits := h.bits
  have hoffset := h.offset
  rw [List.length_map, List.length_take, Vector.length_toList] at hcount
  have hfour : u.bits = 4 := by omega
  have hfull : u.offset = 32 := by omega
  have hspelled := h.between.spelled
  have hrest := h.between.rest
  rw [hfour] at hspelled hrest
  rw [hfull, List.take_of_length_le (by simp)] at hspelled
  exact ⟨hfull, hrest, hspelled⟩

theorem ofBytes_inj {id : IdentityId} {bytes : Vector UInt8 32}
    (h : value 8 (bytes.toList.map UInt8.toNat) = value 8 (id.bytes.toList.map UInt8.toNat)) :
    ⟨bytes⟩ = id := by
  have hsmall : ∀ {v : Vector UInt8 32}, ∀ d ∈ v.toList.map UInt8.toNat, d < 2 ^ 8 := by
    intro v d hd
    obtain ⟨b, -, rfl⟩ := List.mem_map.mp hd
    exact b.toNat_lt
  have hlist := Regrouping.value_inj (by decide) (by simp) hsmall hsmall h
  have hbytes := List.map_injective_iff.mpr (fun _ _ => UInt8.toNat_inj.mp) hlist
  rw [Vector.toList_inj.mp hbytes]

section

variable {body : List UInt8} {text : String} {id : IdentityId}

theorem parseSymbols_ok_iff (hlength : body.length = 52) :
    parseSymbols body = .ok id ↔ ∃ digits, Spells body digits ∧ Digits id digits := by
  rcases unpacks_body hlength.le with ⟨digits, u, hspells, hu, hunpacks⟩ | ⟨⟨b, hb, hnone⟩, herror⟩
  · have hcount : digits.length = 52 := hspells.length_eq.symm.trans hlength
    obtain ⟨-, hsmall, hvalue⟩ := hunpacks.complete hcount
    rw [parseSymbols, hu]
    constructor
    · intro h
      by_cases hacc : u.accumulator = 0
      · obtain rfl : ⟨u.bytes⟩ = id := by simpa [bind, Except.bind, hacc] using h
        refine ⟨digits, hspells, hcount, hspells.small, ?_⟩
        rw [hvalue, hacc]
        rfl
      · simp [bind, Except.bind, hacc] at h
    · rintro ⟨digits', hspells', hdigits⟩
      obtain rfl := hspells.unique hspells'
      have hsame := hdigits.value
      have hzero : u.accumulator.toNat = 0 := by omega
      have hacc : u.accumulator = 0 := UInt16.toNat_inj.mp hzero
      have hbytes : value 8 (u.bytes.toList.map UInt8.toNat) =
          value 8 (id.bytes.toList.map UInt8.toNat) := by omega
      obtain rfl := ofBytes_inj hbytes
      simp [bind, Except.bind, hacc]
  · rw [parseSymbols, herror]
    constructor
    · nofun
    · rintro ⟨digits, hspells, -⟩
      exact absurd hnone (hspells.symbol_ne hb)

theorem parseSymbols_inRange (hlength : body.length = 52) :
    parseSymbols body ≠ .error .outOfRange := by
  rcases unpacks_body hlength.le with ⟨digits, u, -, hu, -⟩ | ⟨-, herror⟩
  · rw [parseSymbols, hu]
    by_cases hacc : u.accumulator = 0 <;> simp [bind, Except.bind, hacc]
  · simp [parseSymbols, herror, bind, Except.bind]

theorem body_length (h : text.utf8ByteSize = 58) : ((utf8 text).drop 6).length = 52 := by
  rw [List.length_drop, utf8_length, h]

theorem parse_ok_iff : parse text = .ok id ↔
    text.utf8ByteSize = 58 ∧ text.startsWith "cr2se:" = true ∧
      ∃ digits, Spells ((utf8 text).drop 6) digits ∧ Digits id digits := by
  rw [parse]
  split
  case isTrue hbad =>
    refine ⟨nofun, fun ⟨hsize, hstarts, _⟩ => ?_⟩
    simp only [hsize, hstarts, ne_eq, not_true_eq_false, Bool.not_true, Bool.false_eq_true,
      or_self] at hbad
  case isFalse hgood =>
    obtain ⟨hsize, hstarts⟩ := not_or.mp hgood
    rw [parseSymbols_ok_iff (body_length (not_not.mp hsize))]
    exact ⟨fun h => ⟨not_not.mp hsize, by simpa using hstarts, h⟩, fun h => h.2.2⟩

theorem parse_inRange : parse text ≠ .error .outOfRange := by
  rw [parse]
  split
  case isTrue => nofun
  case isFalse hgood => exact parseSymbols_inRange (body_length (not_not.mp (not_or.mp hgood).1))

end

/-! Letters in either case. -/

def lower (b : UInt8) : UInt8 := if 0x41 ≤ b ∧ b ≤ 0x5A then b + 0x20 else b

/-- The byte of an ASCII character. -/
def byteOf (c : Char) : UInt8 := c.val.toUInt8

theorem symbol_iff {b : UInt8} {d : Nat} {c : Char} (hc : alphabet[d]? = some c) :
    (symbol b).map UInt8.toNat = some d ↔ lower b = lower (byteOf c) := by
  have hall : ∀ (n : Fin 256) (d : Fin 32), (symbol (UInt8.ofFin n)).map UInt8.toNat = some d.val ↔
      lower (UInt8.ofFin n) = lower (byteOf alphabet[d]) := by decide +kernel
  obtain ⟨hlt, rfl⟩ := List.getElem?_eq_some_iff.mp hc
  exact hall b.toFin ⟨d, hlt⟩

theorem spells_iff {body : List UInt8} {output : List Char} {digits : List Nat}
    (h : Shows output digits) :
    Spells body digits ↔ body.map lower = (output.map byteOf).map lower := by
  induction h generalizing body with
  | nil => cases body <;> simp [Spells]
  | cons hc _ ih =>
    cases body with
    | nil => simp [Spells]
    | cons b body =>
      rw [List.map_cons, List.map_cons, List.map_cons, List.cons.injEq, ← ih, ← symbol_iff hc]
      exact List.forall₂_cons

theorem utf8_eq (text : String) : utf8 text = Json.utf8 text.toList := by
  have h := Json.toByteArray_utf8 text.toList
  rw [String.ofList_toList] at h
  rw [utf8, String.toUTF8_eq_toByteArray, h]

theorem Shows.utf8 {output : List Char} {digits : List Nat} (h : Shows output digits) :
    Json.utf8 output = output.map byteOf := by
  have hall : alphabet.all (fun c => String.utf8EncodeChar c == [byteOf c]) = true := by
    decide +kernel
  induction h with
  | nil => rfl
  | cons hc _ ih =>
    rw [List.map_cons, ← ih]
    exact congrArg (· ++ _) (eq_of_beq (List.all_eq_true.mp hall _ (List.mem_of_getElem? hc)))

theorem utf8_canonical {output : List Char} {digits : List Nat} (h : Shows output digits) :
    utf8 ("cr2se:" ++ String.ofList output) = utf8 "cr2se:" ++ output.map byteOf := by
  rw [utf8_eq, utf8_eq, String.toList_append, String.toList_ofList (l := output), Json.utf8_append,
    h.utf8]

theorem Digits.unique {id : IdentityId} {ds es : List Nat} (h : Digits id ds) (h' : Digits id es) :
    ds = es :=
  Regrouping.value_inj (by decide) (h.length.trans h'.length.symm) h.small h'.small
    (h.value.trans h'.value.symm)

/-- A canonical text: its symbols show the digits of the id. -/
structure Written (id : IdentityId) (canonical : String) (output : List Char) (digits : List Nat) :
    Prop where
  text : canonical = "cr2se:" ++ String.ofList output
  shows : Shows output digits
  digits : Digits id digits

theorem written {id : IdentityId} {canonical : String} (h : format id = .ok canonical) :
    ∃ output digits, Written id canonical output digits := by
  obtain ⟨output, digits, hok, hshows, hdigits⟩ := format_ok id
  exact ⟨output, digits, Except.ok.inj (h.symm.trans hok), hshows, hdigits⟩

namespace Written

variable {id : IdentityId} {canonical : String} {output : List Char} {digits : List Nat}

theorem utf8_eq (h : Written id canonical output digits) :
    utf8 canonical = utf8 "cr2se:" ++ output.map byteOf :=
  h.text ▸ utf8_canonical h.shows

theorem body (h : Written id canonical output digits) :
    (utf8 canonical).drop 6 = output.map byteOf := by
  have hhead : (utf8 "cr2se:").length = 6 := rfl
  rw [h.utf8_eq, ← hhead, List.drop_left]

theorem length (h : Written id canonical output digits) : (utf8 canonical).length = 58 := by
  rw [h.utf8_eq, List.length_append, List.length_map, h.shows.length_eq, h.digits.length]
  rfl

theorem starts (h : Written id canonical output digits) :
    canonical.startsWith "cr2se:" = true := by
  rw [String.startsWith_string_iff, h.text, String.toList_append]
  exact List.prefix_append _ _

theorem parse_iff (h : Written id canonical output digits) (text : String) :
    parse text = .ok id ↔ (utf8 text).length = 58 ∧ text.startsWith "cr2se:" = true ∧
      ((utf8 text).drop 6).map lower = ((utf8 canonical).drop 6).map lower := by
  have hspells : (∃ digits', Spells ((utf8 text).drop 6) digits' ∧ Digits id digits') ↔
      Spells ((utf8 text).drop 6) digits := by
    constructor
    · rintro ⟨digits', hspells, hdigits⟩
      rwa [h.digits.unique hdigits]
    · exact fun hspells => ⟨digits, hspells, h.digits⟩
  rw [parse_ok_iff, utf8_length, hspells, spells_iff h.shows, h.body]

end Written

theorem parse_format {id : IdentityId} {canonical : String} (h : format id = .ok canonical) :
    parse canonical = .ok id := by
  obtain ⟨output, digits, hw⟩ := written h
  exact (hw.parse_iff canonical).mpr ⟨hw.length, hw.starts, rfl⟩

/-! Canonical texts. -/

/-- What the two codecs of identity texts owe each other. -/
structure Canonical : Prop where
  /-- Formatting succeeds, and parsing undoes it. -/
  roundTrip : ∀ id, ∃ text, format id = .ok text ∧ parse text = .ok id
  /-- The accepted texts of an id are its canonical one in any letter case. -/
  accepted : ∀ text id canonical, format id = .ok canonical → (parse text = .ok id ↔
    (utf8 text).length = 58 ∧ text.startsWith "cr2se:" = true ∧
      ((utf8 text).drop 6).map lower = ((utf8 canonical).drop 6).map lower)
  /-- The canonical texts of two ids differ in more than letter case. -/
  distinct : ∀ id id' canonical canonical', format id = .ok canonical →
    format id' = .ok canonical' →
    ((utf8 canonical).drop 6).map lower = ((utf8 canonical').drop 6).map lower → id = id'
  inRange : (∀ id, format id ≠ .error .outOfRange) ∧ ∀ text, parse text ≠ .error .outOfRange

theorem text_canonical : Canonical := by
  constructor
  case roundTrip =>
    intro id
    obtain ⟨output, digits, hok, -, -⟩ := format_ok id
    exact ⟨_, hok, parse_format hok⟩
  case accepted =>
    intro text id canonical h
    obtain ⟨output, digits, hw⟩ := written h
    exact hw.parse_iff text
  case distinct =>
    intro id id' canonical canonical' h h' hsame
    obtain ⟨output, digits, hw⟩ := written h
    obtain ⟨output', digits', hw'⟩ := written h'
    have hother := (hw'.parse_iff canonical).mpr ⟨hw.length, hw.starts, hsame⟩
    exact Except.ok.inj ((parse_format h).symm.trans hother)
  case inRange =>
    refine ⟨fun id => ?_, fun text => parse_inRange⟩
    obtain ⟨output, digits, hok, -, -⟩ := format_ok id
    rw [hok]
    nofun

end TalkSphere.IdentityText
