import JdxLinker.Lib.Bytes
import Mathlib

/-!
# Masks over the first bytes of a buffer

A buffer of bytes is one little-endian number. Masks are combined with its first bytes one by one,
which acts on the bits of the number. Two buffers of one length with the same bits are equal.
-/

namespace JdxLinker.ByteMasks

open Bytes

/-- A buffer of which the first bytes are combined with those of a mask. -/
def combine (f : UInt8 → UInt8 → UInt8) (buffer mask : List UInt8) : List UInt8 :=
  List.zipWith f buffer mask ++ buffer.drop mask.length

/-- Bit `i` of a buffer, counted from the lowest bit of its first byte. -/
def bitAt (buffer : List UInt8) (i : Nat) : Bool := (readLe buffer).testBit i

@[simp] theorem bitAt_nil (i : Nat) : bitAt [] i = false := Nat.zero_testBit i

theorem bitAt_cons (byte : UInt8) (bytes : List UInt8) (i : Nat) :
    bitAt (byte :: bytes) i = if i < 8 then byte.toNat.testBit i else bitAt bytes (i - 8) := by
  have hbyte : byte.toNat < 2 ^ 8 := byte.toNat_lt
  rw [bitAt, readLe, Nat.add_comm]
  exact Nat.testBit_two_pow_mul_add (readLe bytes) hbyte i

theorem combine_cons (f : UInt8 → UInt8 → UInt8) (a b : UInt8) (buffer mask : List UInt8) :
    combine f (a :: buffer) (b :: mask) = f a b :: combine f buffer mask := rfl

@[simp] theorem combine_nil (f : UInt8 → UInt8 → UInt8) (buffer : List UInt8) :
    combine f buffer [] = buffer := by
  rw [combine, List.zipWith_nil_right]
  rfl

theorem combine_length (f : UInt8 → UInt8 → UInt8) {buffer mask : List UInt8}
    (h : mask.length ≤ buffer.length) : (combine f buffer mask).length = buffer.length := by
  rw [combine, List.length_append, List.length_zipWith, List.length_drop]
  omega

theorem bitAt_of_ge {buffer : List UInt8} {i : Nat} (h : 8 * buffer.length ≤ i) :
    bitAt buffer i = false := by
  induction buffer generalizing i with
  | nil => exact bitAt_nil i
  | cons byte bytes ih =>
      rw [List.length_cons] at h
      rw [bitAt_cons, if_neg (by omega), ih (by omega)]

theorem bitAt_combine_and {buffer mask : List UInt8} (h : mask.length ≤ buffer.length) (i : Nat) :
    bitAt (combine (· &&& ·) buffer mask) i =
      (bitAt buffer i && (bitAt mask i || decide (8 * mask.length ≤ i))) := by
  induction mask generalizing buffer i with
  | nil => simp
  | cons b mask ih =>
      cases buffer with
      | nil => exact absurd h (Nat.not_succ_le_zero _)
      | cons a buffer =>
          have hlen : mask.length ≤ buffer.length := Nat.le_of_succ_le_succ h
          rw [combine_cons, bitAt_cons, bitAt_cons, bitAt_cons, List.length_cons]
          by_cases hi : i < 8
          · have hlow : ¬ 8 * (mask.length + 1) ≤ i := by omega
            rw [if_pos hi, if_pos hi, if_pos hi, UInt8.toNat_and, Nat.testBit_and,
              decide_eq_false hlow, Bool.or_false]
          · have hiff : (8 * (mask.length + 1) ≤ i) = (8 * mask.length ≤ i - 8) := by
              apply propext
              omega
            rw [if_neg hi, if_neg hi, if_neg hi, ih hlen]
            simp only [hiff]

theorem bitAt_combine_or {buffer mask : List UInt8} (h : mask.length ≤ buffer.length) (i : Nat) :
    bitAt (combine (· ||| ·) buffer mask) i = (bitAt buffer i || bitAt mask i) := by
  induction mask generalizing buffer i with
  | nil => simp
  | cons b mask ih =>
      cases buffer with
      | nil => exact absurd h (Nat.not_succ_le_zero _)
      | cons a buffer =>
          have hlen : mask.length ≤ buffer.length := Nat.le_of_succ_le_succ h
          rw [combine_cons, bitAt_cons, bitAt_cons, bitAt_cons]
          by_cases hi : i < 8
          · rw [if_pos hi, if_pos hi, if_pos hi, UInt8.toNat_or, Nat.testBit_or]
          · rw [if_neg hi, if_neg hi, if_neg hi, ih hlen]

theorem bitAt_leBytes (len value i : Nat) :
    bitAt (leBytes len value) i = (decide (i < 8 * len) && value.testBit i) := by
  have hpow : 256 ^ len = 2 ^ (8 * len) := by rw [pow_mul]; rfl
  rw [bitAt, readLe_leBytes, hpow, Nat.testBit_mod_two_pow]

/-- The bits from a byte on are those of the buffer from there. -/
theorem bitAt_drop (buffer : List UInt8) (len i : Nat) :
    bitAt (buffer.drop len) i = bitAt buffer (8 * len + i) := by
  induction len generalizing buffer with
  | zero => rw [List.drop_zero, Nat.mul_zero, Nat.zero_add]
  | succ len ih =>
      cases buffer with
      | nil => rw [List.drop_nil, bitAt_nil, bitAt_nil]
      | cons byte bytes =>
          rw [List.drop_succ_cons, ih, bitAt_cons, if_neg (by omega)]
          congr 1
          omega

theorem bitAt_take (buffer : List UInt8) (len i : Nat) :
    bitAt (buffer.take len) i = (decide (i < 8 * len) && bitAt buffer i) := by
  induction len generalizing buffer i with
  | zero => rw [List.take_zero, bitAt_nil]; simp
  | succ len ih =>
      cases buffer with
      | nil => rw [List.take_nil, bitAt_nil, Bool.and_false]
      | cons byte bytes =>
          rw [List.take_succ_cons, bitAt_cons, bitAt_cons]
          by_cases hi : i < 8
          · rw [if_pos hi, if_pos hi, decide_eq_true (by omega), Bool.true_and]
          · have hiff : (i - 8 < 8 * len) = (i < 8 * (len + 1)) := by
              apply propext
              omega
            rw [if_neg hi, if_neg hi, ih]
            simp only [hiff]

theorem bitAt_append (front back : List UInt8) (i : Nat) :
    bitAt (front ++ back) i =
      if i < 8 * front.length then bitAt front i else bitAt back (i - 8 * front.length) := by
  by_cases hi : i < 8 * front.length
  · have htake := bitAt_take (front ++ back) front.length i
    rw [List.take_left, decide_eq_true hi, Bool.true_and] at htake
    rw [if_pos hi, htake]
  · have hdrop := bitAt_drop (front ++ back) front.length (i - 8 * front.length)
    rw [List.drop_left, Nat.add_sub_cancel' (by omega)] at hdrop
    rw [if_neg hi, hdrop]

theorem eq_of_bitAt_eq {buffer buffer' : List UInt8} (hlen : buffer.length = buffer'.length)
    (h : ∀ i, bitAt buffer i = bitAt buffer' i) : buffer = buffer' := by
  induction buffer generalizing buffer' with
  | nil => exact (List.eq_nil_of_length_eq_zero hlen.symm).symm
  | cons byte bytes ih =>
      cases buffer' with
      | nil => cases hlen
      | cons byte' bytes' =>
          have hbyte : byte = byte' := by
            apply UInt8.toNat_inj.mp
            apply Nat.eq_of_testBit_eq
            intro i
            by_cases hi : i < 8
            · have hbit := h i
              rwa [bitAt_cons, bitAt_cons, if_pos hi, if_pos hi] at hbit
            · have hpow : 2 ^ 8 ≤ 2 ^ i := Nat.pow_le_pow_right (by decide) (by omega)
              rw [Nat.testBit_lt_two_pow (lt_of_lt_of_le byte.toNat_lt hpow),
                Nat.testBit_lt_two_pow (lt_of_lt_of_le byte'.toNat_lt hpow)]
          have hbytes : bytes = bytes' := by
            apply ih (Nat.succ.inj hlen)
            intro i
            have hbit := h (i + 8)
            rwa [bitAt_cons, bitAt_cons, if_neg (by omega), if_neg (by omega),
              Nat.add_sub_cancel] at hbit
          rw [hbyte, hbytes]

end JdxLinker.ByteMasks
