import Mathlib.Tactic.Common

/-! Successful runs of fallible code: a bind succeeds when both of its halves do, and what
every step of a loop keeps, the loop keeps. -/

namespace Outcome

variable {ε α β : Type}

theorem toOption_some {x : Except ε α} {a : α} : x.toOption = some a ↔ x = .ok a := by
  cases x <;> simp [Except.toOption]

theorem bind_ok {x : Except ε α} {f : α → Except ε β} {r : β} :
    (x >>= f) = .ok r ↔ ∃ a, x = .ok a ∧ f a = .ok r := by
  cases x with
  | error e => simp [bind, Except.bind]
  | ok a => simp [bind, Except.bind]

theorem foldlM_ok {f : β → α → Except ε β} (P : List α → β → Prop) {items : List α} {b b' : β}
    (h : items.foldlM f b = .ok b') (hstart : P [] b)
    (hstep : ∀ {passed a rest b b'}, items = passed ++ a :: rest → P passed b → f b a = .ok b' →
      P (passed ++ [a]) b') : P items b' := by
  suffices hrun : ∀ (rest passed : List α) (b : β), items = passed ++ rest → P passed b →
      rest.foldlM f b = .ok b' → P items b' from hrun items [] b rfl hstart h
  intro rest
  induction rest with
  | nil =>
    intro passed b hitems hp hb
    obtain rfl := Except.ok.inj hb
    rw [hitems, List.append_nil]
    exact hp
  | cons a rest ih =>
    intro passed b hitems hp hb
    rw [List.foldlM_cons] at hb
    obtain ⟨b₁, hfirst, hb⟩ := bind_ok.mp hb
    exact ih (passed ++ [a]) b₁ (by rw [hitems, List.append_assoc, List.singleton_append])
      (hstep hitems hp hfirst) hb

end Outcome
