import Mathlib.Algebra.GroupWithZero.Nat
import TalkSphere.JsonTokens

/-! The strings of a tree are not longer than the text they were decoded from. -/

namespace Json

mutual

def Tree.weight : Tree → Nat
  | .string text => text.utf8ByteSize
  | .array items => weights items
  | .object members => memberWeights members
  | _ => 0

def weights : List Tree → Nat
  | [] => 0
  | t :: ts => t.weight + weights ts

def memberWeights : List (String × Tree) → Nat
  | [] => 0
  | (key, t) :: ms => key.utf8ByteSize + t.weight + memberWeights ms

end

theorem memberWeights_eq (ms : List (String × Tree)) :
    memberWeights ms = (ms.map fun m => m.1.utf8ByteSize + m.2.weight).sum := by
  induction ms with
  | nil => rfl
  | cons m ms ih => rw [memberWeights, ih, List.map_cons, List.sum_cons]

/-! Escapes only lengthen a string. -/

theorem length_utf8_pos (chars : List Char) : chars.length ≤ (utf8 chars).length := by
  induction chars with
  | nil => simp
  | cons c chars ih =>
    have hpos := c.utf8Size_pos
    rw [utf8, List.flatMap_cons, List.length_append, String.length_utf8EncodeChar, List.length_cons,
      ← utf8]
    omega

theorem shortEscape_size {e c : Char} (h : shortEscape e = some c) : c.utf8Size ≤ 2 := by
  unfold shortEscape at h
  split_ifs at h <;> obtain rfl := Option.some.inj h <;> decide

theorem Item.length_le {spelled : List Char} {c : Char} (h : Item spelled c) :
    (utf8 [c]).length ≤ (utf8 spelled).length := by
  have hone : (utf8 [c]).length = c.utf8Size := by simp [utf8, String.length_utf8EncodeChar]
  have hfour := c.utf8Size_le_four
  have hspelled := length_utf8_pos spelled
  cases h with
  | plain => exact le_refl _
  | short h =>
    have hsize := shortEscape_size h
    simp only [List.length_cons, List.length_nil] at hspelled
    omega
  | scalar | pair =>
    simp only [List.length_cons, List.length_nil] at hspelled
    omega

theorem Chars.length_le {body text : List Char} (h : Chars body text) :
    (utf8 text).length ≤ (utf8 body).length := by
  induction h with
  | nil => exact le_refl _
  | @cons spelled body text c hitem _ ih =>
    have hfirst := hitem.length_le
    rw [show c :: text = [c] ++ text from rfl]
    simp only [utf8, List.flatMap_append, List.length_append] at hfirst ih ⊢
    omega

theorem IsString.length_le {text : String} {token : List UInt8} (h : IsString text token) :
    text.utf8ByteSize ≤ token.length := by
  obtain ⟨body, hbody, rfl⟩ := h
  have hsize : text.utf8ByteSize = (utf8 text.toList).length := by
    have hbytes := toByteArray_utf8 text.toList
    rw [String.ofList_toList] at hbytes
    rw [← String.size_toByteArray, hbytes]
    rfl
  have hle := hbody.length_le
  rw [hsize]
  simp only [utf8, List.flatMap_cons, List.flatMap_append, List.length_append] at hle ⊢
  omega

def Phrase.weight : Phrase → Nat
  | .value t => t.weight
  | .padded t => t.weight
  | .elements items => weights items
  | .members ms => memberWeights ms

theorem Derives.weight_le {phrase : Phrase} {bytes : List UInt8} (h : Derives phrase bytes) :
    phrase.weight ≤ bytes.length := by
  induction h with
  | null | bool | number => simp [Phrase.weight, Tree.weight]
  | string h => exact h.length_le
  | emptyArray | emptyObject => simp [Phrase.weight, Tree.weight, weights, memberWeights]
  | array _ ih | object _ ih =>
    simp only [Phrase.weight, Tree.weight, List.length_cons, List.length_append] at ih ⊢
    omega
  | padded _ _ _ ih =>
    simp only [Phrase.weight, List.length_append] at ih ⊢
    omega
  | element _ ih =>
    simp only [Phrase.weight, weights] at ih ⊢
    omega
  | elements _ _ ih ihr =>
    simp only [Phrase.weight, weights, List.length_append, List.length_cons] at ih ihr ⊢
    omega
  | member _ hk _ _ ih =>
    have hkey := hk.length_le
    simp only [Phrase.weight, memberWeights, List.length_append, List.length_cons] at ih ⊢
    omega
  | members _ hk _ _ _ ih ihr =>
    have hkey := hk.length_le
    simp only [Phrase.weight, memberWeights, List.length_append, List.length_cons] at ih ihr ⊢
    omega

end Json
