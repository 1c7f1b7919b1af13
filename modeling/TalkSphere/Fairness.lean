import Mathlib.Logic.Function.Iterate

/-! Progress of a deterministic machine under a fair schedule. Each step uses up
times of a clock; at some times the schedule helps, and it does so again and again. -/

namespace Fairness

def Often (helps : Nat → Prop) : Prop := ∀ t, ∃ u, t ≤ u ∧ helps u

/-- One step leaves no more work than there was. Unless it did some work, it used up
times of the clock at which the schedule did not help. -/
structure Advances (helps : Nat → Prop) {α : Type} (clock work : α → Nat) (x y : α) : Prop where
  work_le : work y ≤ work x
  moves : work y < work x ∨ clock x < clock y
  helped : ∀ u, clock x ≤ u → u < clock y → helps u → work y < work x

variable {helps : Nat → Prop} {α : Type} {next : α → α} {inv goal : α → Prop}
  {clock work : α → Nat}

theorem reaches (often : Often helps)
    (step : ∀ x, inv x → ¬ goal x → inv (next x) ∧ Advances helps clock work x (next x))
    {x : α} (hx : inv x) : ∃ m, goal (next^[m] x) := by
  -- The outer induction is on the work left, the inner one on the time to the next help.
  induction hw : work x using Nat.strongRecOn generalizing x with
  | ind n ih =>
    obtain ⟨u, hu, hh⟩ := often (clock x)
    induction hd : u + 1 - clock x using Nat.strongRecOn generalizing x with
    | ind d ihd =>
      by_cases hg : goal x
      · exact ⟨0, hg⟩
      obtain ⟨hy, ha⟩ := step x hx hg
      have hlater : ∀ {m}, goal (next^[m] (next x)) → ∃ m, goal (next^[m] x) := fun {m} h =>
        ⟨m + 1, by rwa [Function.iterate_succ_apply]⟩
      by_cases hlt : work (next x) < work x
      · obtain ⟨m, hm⟩ := ih _ (hw ▸ hlt) hy rfl
        exact hlater hm
      · have hc := ha.moves.resolve_left hlt
        have hu' : clock (next x) ≤ u := by
          by_contra hnot
          exact hlt (ha.helped u hu (by omega) hh)
        have he : work (next x) = n := by have := ha.work_le; omega
        obtain ⟨m, hm⟩ := ihd _ (by omega) hy he hu' rfl
        exact hlater hm

end Fairness
