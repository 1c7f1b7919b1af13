import Mathlib.Algebra.Order.Field.Basic
import Mathlib.Data.Nat.Digits.Lemmas
import Mathlib.Data.Rat.Cast.Order
import Mathlib.Tactic.FieldSimp
import Mathlib.Tactic.Ring
import TalkSphere.JsonTokens

/-! The values of JSON numbers, and when a run of digits at a decimal position is a whole
number. -/

namespace Json

def digit (b : UInt8) : Nat := b.toNat - 48

def natural (digits : List UInt8) : Nat := Nat.ofDigits 10 (digits.map digit).reverse

def Exponent.value (e : Exponent) : Int :=
  if e.sign = some minus then -(natural e.digits : Int) else natural e.digits

def Number.value (n : Number) : ℚ :=
  let fraction := n.fraction.getD []
  (if n.negative then -1 else 1) * (natural n.whole + natural fraction / 10 ^ fraction.length) *
    10 ^ n.exponent.elim 0 Exponent.value

/-! Runs of digits. -/

theorem digit_lt {b : UInt8} (h : isDigit b = true) : digit b < 10 := by
  have hb : b ≤ 0x39 := by
    simp only [isDigit, Bool.and_eq_true, decide_eq_true_eq] at h
    exact h.2
  have hle : b.toNat ≤ 57 := UInt8.le_iff_toNat_le.mp hb
  simp only [digit]
  omega

theorem digit_eq_zero {b : UInt8} (h : isDigit b = true) : digit b = 0 ↔ b = zero := by
  have hb : zero ≤ b := by
    simp only [isDigit, Bool.and_eq_true, decide_eq_true_eq] at h
    exact h.1
  have hle : 48 ≤ b.toNat := UInt8.le_iff_toNat_le.mp hb
  constructor
  · intro hd
    refine UInt8.toNat_inj.mp ?_
    simp only [digit] at hd
    change b.toNat = 48
    omega
  · rintro rfl
    rfl

theorem natural_nil : natural [] = 0 := rfl

theorem natural_append (a b : List UInt8) :
    natural (a ++ b) = natural a * 10 ^ b.length + natural b := by
  rw [natural, List.map_append, List.reverse_append, Nat.ofDigits_append, List.length_reverse,
    List.length_map, natural, natural]
  ring

theorem natural_cons (b : UInt8) (a : List UInt8) :
    natural (b :: a) = digit b * 10 ^ a.length + natural a := by
  have h := natural_append [b] a
  rwa [show natural [b] = digit b by simp [natural]] at h

theorem natural_lt {a : List UInt8} (h : ∀ b ∈ a, isDigit b = true) :
    natural a < 10 ^ a.length := by
  have hlt : Nat.ofDigits 10 (a.map digit).reverse < 10 ^ (a.map digit).reverse.length := by
    refine Nat.ofDigits_lt_base_pow_length (by decide) fun x hx => ?_
    obtain ⟨b, hb, rfl⟩ := List.mem_map.mp (List.mem_reverse.mp hx)
    exact digit_lt (h b hb)
  rwa [List.length_reverse, List.length_map] at hlt

theorem natural_eq_zero {a : List UInt8} (h : ∀ b ∈ a, isDigit b = true) :
    natural a = 0 ↔ ∀ b ∈ a, b = zero := by
  induction a with
  | nil => simp [natural_nil]
  | cons b a ih =>
    obtain ⟨hb, ha⟩ := List.forall_mem_cons.mp h
    rw [natural_cons, List.forall_mem_cons, ← digit_eq_zero hb, ← ih ha, Nat.add_eq_zero_iff,
      Nat.mul_eq_zero]
    simp

theorem natural_dropWhile (a : List UInt8) : natural (a.dropWhile (· == zero)) = natural a := by
  induction a with
  | nil => rfl
  | cons b a ih =>
    by_cases hb : b = zero
    · simp only [hb, List.dropWhile_cons, beq_self_eq_true, if_true, ih, natural_cons,
        show digit zero = 0 from rfl, Nat.zero_mul, Nat.zero_add]
    · simp [hb]

theorem natural_ge {b : UInt8} {a : List UInt8} (hb : isDigit b = true) (hz : b ≠ zero) :
    10 ^ a.length ≤ natural (b :: a) := by
  have hpos : 1 ≤ digit b := Nat.one_le_iff_ne_zero.mpr (mt (digit_eq_zero hb).mp hz)
  rw [natural_cons]
  exact (Nat.le_mul_of_pos_left _ hpos).trans (Nat.le_add_right _ _)

/-! Whole numbers among `d * 10 ^ shift`. -/

theorem whole_of_nonneg {d k : Nat} {shift : Int} (h : 0 ≤ shift) :
    (d : ℚ) * 10 ^ shift = k ↔ d * 10 ^ shift.toNat = k := by
  obtain ⟨m, rfl⟩ := Int.eq_ofNat_of_zero_le h
  rw [zpow_natCast, Int.toNat_natCast, ← Nat.cast_inj (R := ℚ)]
  push_cast
  rfl

theorem whole_of_neg {d k : Nat} {shift : Int} (h : shift < 0) :
    (d : ℚ) * 10 ^ shift = k ↔ d = k * 10 ^ (-shift).toNat := by
  obtain ⟨m, hm⟩ := Int.eq_ofNat_of_zero_le (show 0 ≤ -shift by omega)
  obtain rfl : shift = -(m : Int) := by omega
  have hpow : (10 : ℚ) ^ m ≠ 0 := by positivity
  rw [zpow_neg, zpow_natCast, neg_neg, Int.toNat_natCast, ← div_eq_mul_inv, div_eq_iff hpow,
    ← Nat.cast_inj (R := ℚ)]
  push_cast
  rfl

theorem not_whole_of_lt {d k : Nat} {shift : Int} (hd : 0 < d) (h : shift < 0)
    (hlt : d < 10 ^ (-shift).toNat) : (d : ℚ) * 10 ^ shift ≠ k := by
  intro he
  have hk := (whole_of_neg h).mp he
  have hpos : 0 < k := Nat.pos_of_ne_zero fun hz => by simp [hz] at hk; omega
  have hle := Nat.le_mul_of_pos_left (10 ^ (-shift).toNat) hpos
  omega

theorem Number.value_eq (n : Number) : n.value = (if n.negative then -1 else 1) *
    ((natural (n.whole ++ n.fraction.getD []) : ℚ) *
      10 ^ (n.exponent.elim 0 Exponent.value - (n.fraction.getD []).length)) := by
  have hpow : (10 : ℚ) ^ (n.fraction.getD []).length ≠ 0 := by positivity
  rw [zpow_sub₀ (by norm_num : (10 : ℚ) ≠ 0), zpow_natCast, natural_append]
  simp only [value]
  push_cast
  field_simp

end Json
