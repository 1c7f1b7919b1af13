import Mathlib.Order.Basic
import Mathlib.Tactic.Common

/-! Round-robin choice among numbers below `N`: the least ready number above the
last chosen one, or the least of all. The gap from the pointer to a waiting number
shrinks with every other choice, so nobody is chosen twice while it waits. -/

namespace Rotation

variable {N : Nat}

structure Chosen (last : Option Nat) (ready : List Nat) (j : Nat) : Prop where
  mem : j ∈ ready
  least : (last.all (· < j) = true ∧ ∀ k ∈ ready, last.all (· < k) = true → j ≤ k) ∨
    ((∀ k ∈ ready, last.all (· < k) = false) ∧ ∀ k ∈ ready, j ≤ k)

/-- How many numbers lie strictly between the pointer and `i`, going up and around. -/
def gap (N : Nat) : Option Nat → Nat → Nat
  | none, i => i
  | some p, i => if p < i then i - p - 1 else N - 1 - p + i

theorem gap_lt {last : Option Nat} {i : Nat} (hi : i < N) (hl : ∀ p ∈ last, p < N) :
    gap N last i < N := by
  cases last with
  | none => exact hi
  | some p =>
    have := hl p rfl
    simp only [gap]
    split <;> omega

theorem gap_self (i : Nat) (hi : i < N) : gap N (some i) i = N - 1 := by
  rw [gap, if_neg (Nat.lt_irrefl i)]
  omega

theorem gap_decreases {last : Option Nat} {ready : List Nat} {i j : Nat}
    (h : Chosen last ready j) (hi : i ∈ ready) (hne : j ≠ i) (hj : j < N)
    (hl : ∀ p ∈ last, p < N) : gap N (some j) i < gap N last i := by
  cases last with
  | none =>
    have hle : j ≤ i := by
      rcases h.least with ⟨-, hmin⟩ | ⟨-, hmin⟩
      · exact hmin i hi rfl
      · exact hmin i hi
    simp only [gap]
    rw [if_pos (by omega)]
    omega
  | some p =>
    have hp := hl p rfl
    simp only [gap]
    rcases h.least with ⟨hpj, hmin⟩ | ⟨hnone, hmin⟩
    · have hpj : p < j := by simpa using hpj
      by_cases hpi : p < i
      · have hle := hmin i hi (by simpa using hpi)
        rw [if_pos (by omega), if_pos hpi]
        omega
      · rw [if_neg (by omega), if_neg hpi]
        omega
    · have hpi : ¬ p < i := by simpa using hnone i hi
      have hle := hmin i hi
      rw [if_pos (by omega), if_neg hpi]
      omega

theorem nodup_of_gaps {i : Nat} {chosen : List Nat} (hi : i < N)
    (hlt : ∀ j ∈ chosen, gap N (some j) i < N - 1)
    (hdec : chosen.Pairwise fun j k => gap N (some k) i < gap N (some j) i) :
    chosen.Nodup ∧ i ∉ chosen := by
  refine ⟨hdec.imp fun h he => ?_, fun hm => ?_⟩
  · subst he
    exact Nat.lt_irrefl _ h
  · have h := hlt i hm
    rw [gap_self i hi] at h
    exact Nat.lt_irrefl _ h

end Rotation
