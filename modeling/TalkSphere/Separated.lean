import Mathlib.Data.List.Basic

/-! Text with separators: the part before the first separator, and lines that each end with one. -/

namespace Separated

variable {α : Type} [DecidableEq α] {c : α}

omit [DecidableEq α] in
theorem mem_intercalate {x : α} {parts : List (List α)} (h : x ∈ [c].intercalate parts) :
    x = c ∨ ∃ part ∈ parts, x ∈ part := by
  rw [List.intercalate, List.mem_flatten] at h
  obtain ⟨part, hpart, hx⟩ := h
  induction parts with
  | nil => cases hpart
  | cons first parts ih =>
    cases parts with
    | nil => exact .inr ⟨part, hpart, hx⟩
    | cons second parts =>
      rw [List.intersperse_cons_cons, List.mem_cons, List.mem_cons] at hpart
      rcases hpart with rfl | rfl | hpart
      · exact .inr ⟨part, List.mem_cons_self, hx⟩
      · exact .inl (List.mem_singleton.mp hx)
      · rcases ih hpart with h | ⟨q, hq, hx⟩
        · exact .inl h
        · exact .inr ⟨q, List.mem_cons_of_mem _ hq, hx⟩

def splitOnce (c : α) : List α → Option (List α × List α)
  | [] => none
  | x :: rest => if x = c then some ([], rest) else (splitOnce c rest).map fun (a, b) => (x :: a, b)

theorem splitOnce_append {l : List α} (h : c ∉ l) (rest : List α) :
    splitOnce c (l ++ c :: rest) = some (l, rest) := by
  induction l with
  | nil => simp [splitOnce]
  | cons x l ih =>
    obtain ⟨hx, hl⟩ := List.ne_and_not_mem_of_not_mem_cons h
    simp [splitOnce, hx.symm, ih hl]

theorem splitOnce_none {l : List α} (h : c ∉ l) : splitOnce c l = none := by
  induction l with
  | nil => rfl
  | cons x l ih =>
    obtain ⟨hx, hl⟩ := List.ne_and_not_mem_of_not_mem_cons h
    simp [splitOnce, hx.symm, ih hl]

def terminated (c : α) : List α → List (List α)
  | [] => []
  | x :: rest =>
    if x = c then [] :: terminated c rest
    else match terminated c rest with
      | [] => [[x]]
      | first :: more => (x :: first) :: more

theorem terminated_append {l : List α} (h : c ∉ l) (rest : List α) :
    terminated c (l ++ c :: rest) = l :: terminated c rest := by
  induction l with
  | nil => simp [terminated]
  | cons x l ih =>
    obtain ⟨hx, hl⟩ := List.ne_and_not_mem_of_not_mem_cons h
    simp [terminated, hx.symm, ih hl]

theorem terminated_lines {lines : List (List α)} (h : ∀ l ∈ lines, c ∉ l) :
    terminated c (lines.flatMap (· ++ [c])) = lines := by
  induction lines with
  | nil => rfl
  | cons l lines ih =>
    obtain ⟨hl, hlines⟩ := List.forall_mem_cons.mp h
    rw [List.flatMap_cons, List.append_assoc, List.singleton_append, terminated_append hl, ih hlines]

theorem lines_terminated {text : List α} (h : ∀ x, text.getLast? = some x → x = c) :
    (terminated c text).flatMap (· ++ [c]) = text := by
  induction text with
  | nil => rfl
  | cons x rest ih =>
    have hrest : ∀ y, rest.getLast? = some y → y = c := by
      intro y hy
      refine h y ?_
      rw [List.getLast?_cons, hy]
      rfl
    have htext := ih hrest
    by_cases hx : x = c
    · simp [terminated, hx, htext]
    · cases hlines : terminated c rest with
      | nil =>
        rw [hlines] at htext
        exact absurd (h x (by rw [← htext]; rfl)) hx
      | cons first more =>
        rw [hlines] at htext
        simp only [terminated, hx, if_false, hlines]
        rw [← htext, List.flatMap_cons, List.flatMap_cons, List.cons_append, List.cons_append]

end Separated
