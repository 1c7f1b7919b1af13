import Mathlib.Data.Nat.Digits.Lemmas
import Mathlib.Tactic.Ring

/-! Digits of one width cut into digits of another, the highest first. A loop that does this
keeps the bits it has taken and not yet given; the number that the digits spell does not change. -/

namespace Regrouping

def value (w : Nat) (digits : List Nat) : Nat := Nat.ofDigits (2 ^ w) digits.reverse

theorem value_nil (w : Nat) : value w [] = 0 := rfl

theorem value_snoc (w : Nat) (digits : List Nat) (d : Nat) :
    value w (digits ++ [d]) = value w digits * 2 ^ w + d := by
  rw [value, List.reverse_append, List.reverse_singleton, List.singleton_append,
    Nat.ofDigits_cons, value]
  ring

theorem value_inj {w : Nat} (hw : 0 < w) {ds es : List Nat} (hlength : ds.length = es.length)
    (hds : ∀ d ∈ ds, d < 2 ^ w) (hes : ∀ d ∈ es, d < 2 ^ w) (h : value w ds = value w es) :
    ds = es := by
  have hbase : 1 < 2 ^ w := Nat.one_lt_two_pow hw.ne'
  apply List.reverse_injective
  exact Nat.ofDigits_inj_of_len_eq hbase (by simpa using hlength) (by simpa using hds)
    (by simpa using hes) h

/-- Between digits of `w` bits that were taken and digits of `v` bits that were given stand
`bits` bits, with the value `rest`. -/
structure Between (w v : Nat) (taken given : List Nat) (rest bits : Nat) : Prop where
  spelled : value w taken = value v given * 2 ^ bits + rest
  rest : rest < 2 ^ bits
  bits : w * taken.length = v * given.length + bits
  given : ∀ d ∈ given, d < 2 ^ v

section

variable {w v : Nat} {taken given : List Nat} {rest bits d : Nat}

theorem between_nil (w v : Nat) : Between w v [] [] 0 0 := ⟨rfl, Nat.one_pos, rfl, nofun⟩

theorem Between.take (h : Between w v taken given rest bits) (hd : d < 2 ^ w) :
    Between w v (taken ++ [d]) given (rest * 2 ^ w + d) (bits + w) := by
  refine ⟨?_, ?_, ?_, h.given⟩
  · rw [value_snoc, h.spelled, pow_add]
    ring
  · calc rest * 2 ^ w + d < rest * 2 ^ w + 2 ^ w := by omega
      _ = (rest + 1) * 2 ^ w := by ring
      _ ≤ 2 ^ bits * 2 ^ w := Nat.mul_le_mul_right _ h.rest
      _ = 2 ^ (bits + w) := (pow_add ..).symm
  · rw [List.length_append, List.length_singleton, Nat.mul_add, h.bits]
    omega

theorem Between.give (h : Between w v taken given rest (bits + v)) :
    Between w v taken (given ++ [rest / 2 ^ bits]) (rest % 2 ^ bits) bits := by
  have hpos : 0 < 2 ^ bits := Nat.two_pow_pos bits
  have hsplit := Nat.div_add_mod rest (2 ^ bits)
  refine ⟨?_, Nat.mod_lt _ hpos, ?_, ?_⟩
  · rw [value_snoc, h.spelled, pow_add]
    nlinarith
  · rw [List.length_append, List.length_singleton, h.bits]
    ring
  · intro d hd
    rcases List.mem_append.mp hd with hd | hd
    · exact h.given d hd
    · rw [List.mem_singleton.mp hd]
      exact Nat.div_lt_of_lt_mul (by rw [← pow_add]; exact h.rest)

end

end Regrouping
