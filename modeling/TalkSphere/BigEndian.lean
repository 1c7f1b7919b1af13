import Mathlib.Data.List.Induction
import Mathlib.Tactic.Linarith

/-! Fixed-width big-endian integers as byte lists. The width is a parameter,
so one pair of round-trip laws serves every integer field of a wire format. -/

namespace BigEndian

def encode : Nat → Nat → List UInt8
  | 0, _ => []
  | width + 1, n => encode width (n / 256) ++ [UInt8.ofNat (n % 256)]

def decode (bytes : List UInt8) : Nat :=
  bytes.foldl (fun n b => n * 256 + b.toNat) 0

@[simp] theorem encode_length (width n : Nat) : (encode width n).length = width := by
  induction width generalizing n with
  | zero => rfl
  | succ width ih => simp [encode, ih]

theorem two_bytes (n : Nat) : ∃ a b, encode 2 n = [a, b] := by
  match h : encode 2 n, encode_length 2 n with
  | [a, b], _ => exact ⟨a, b, rfl⟩

@[simp] theorem decode_nil : decode [] = 0 := rfl

theorem decode_concat (bytes : List UInt8) (b : UInt8) :
    decode (bytes ++ [b]) = decode bytes * 256 + b.toNat := by
  simp [decode]

theorem decode_lt (bytes : List UInt8) : decode bytes < 256 ^ bytes.length := by
  induction bytes using List.reverseRecOn with
  | nil => simp
  | append_singleton bytes b ih =>
    have hb := b.toNat_lt
    rw [decode_concat, List.length_append, List.length_singleton, Nat.pow_succ]
    omega

theorem decode_encode {width n : Nat} (h : n < 256 ^ width) : decode (encode width n) = n := by
  induction width generalizing n with
  | zero => simp only [Nat.pow_zero] at h; simp only [encode, decode_nil]; omega
  | succ width ih =>
    have hq : n / 256 < 256 ^ width := by rw [Nat.pow_succ] at h; omega
    rw [encode, decode_concat, ih hq]
    simp only [UInt8.toNat_ofNat', Nat.reducePow]
    omega

theorem encode_decode (bytes : List UInt8) : encode bytes.length (decode bytes) = bytes := by
  induction bytes using List.reverseRecOn with
  | nil => rfl
  | append_singleton bytes b ih =>
    have hb := b.toNat_lt
    have hq : (decode bytes * 256 + b.toNat) / 256 = decode bytes := by omega
    have hr : (decode bytes * 256 + b.toNat) % 256 = b.toNat := by omega
    rw [List.length_append, List.length_singleton, decode_concat, encode, hq, hr, ih]
    simp

theorem encode_inj {width m n : Nat} (hm : m < 256 ^ width) (hn : n < 256 ^ width)
    (h : encode width m = encode width n) : m = n := by
  rw [← decode_encode hm, h, decode_encode hn]

end BigEndian
