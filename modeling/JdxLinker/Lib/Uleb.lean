import Mathlib

/-!
# Unsigned LEB128 numbers

A number as bytes of seven bits each, the lowest bits first, every byte but the last with its high
bit set, in as few bytes as the number needs.
-/

namespace JdxLinker.Uleb

/-- The number of bytes that a number takes. -/
def size (n : Nat) : Nat := n.log2 / 7 + 1

/-- The `len` low groups of seven bits of a number, the last without the continuation bit. -/
def groups : Nat → Nat → List UInt8
  | 0, _ => []
  | 1, n => [UInt8.ofNat n]
  | len + 2, n => UInt8.ofNat (n % 128 + 128) :: groups (len + 1) (n / 128)

def encode (n : Nat) : List UInt8 := groups (size n) n

/-- The number at the start of the bytes, and the bytes after it. -/
def decode : List UInt8 → Option (Nat × List UInt8)
  | [] => none
  | byte :: bytes =>
      if byte.toNat < 128 then
        some (byte.toNat, bytes)
      else
        match decode bytes with
        | some (n, rest) => some (byte.toNat - 128 + 128 * n, rest)
        | none => none

theorem size_pos (n : Nat) : 0 < size n := Nat.succ_pos _

theorem size_mono {m n : Nat} (h : m ≤ n) : size m ≤ size n := by
  unfold size
  have hlog : m.log2 ≤ n.log2 := by
    rw [Nat.log2_eq_log_two, Nat.log2_eq_log_two]
    exact Nat.log_mono_right h
  omega

theorem lt_pow_size (n : Nat) : n < 128 ^ size n := by
  calc n < 2 ^ (n.log2 + 1) := Nat.lt_log2_self
    _ ≤ 2 ^ (7 * size n) := Nat.pow_le_pow_right (by decide) (by unfold size; omega)
    _ = 128 ^ size n := by rw [pow_mul]; rfl

/-- A number below a power of 128 takes at most that many bytes. -/
theorem size_le_of_lt {n len : Nat} (hlen : 0 < len) (h : n < 128 ^ len) : size n ≤ len := by
  obtain rfl | hn := Nat.eq_zero_or_pos n
  · exact hlen
  · have hlog : n.log2 < 7 * len := by
      rw [Nat.log2_lt (by omega), pow_mul]
      exact h
    unfold size
    omega

/-- A number that is not below a power of 128 takes more bytes than that. -/
theorem lt_size_of_le {n len : Nat} (h : 128 ^ len ≤ n) : len < size n := by
  by_contra hle
  have hpow : 128 ^ size n ≤ 128 ^ len := Nat.pow_le_pow_right (by decide) (by omega)
  have := lt_pow_size n
  omega

theorem groups_length (len n : Nat) : (groups len n).length = len := by
  induction len generalizing n with
  | zero => rfl
  | succ len ih =>
      cases len with
      | zero => rfl
      | succ len => rw [groups, List.length_cons, ih]

@[simp] theorem encode_length (n : Nat) : (encode n).length = size n := groups_length _ _

theorem decode_groups {len n : Nat} (hlen : 0 < len) (h : n < 128 ^ len) (rest : List UInt8) :
    decode (groups len n ++ rest) = some (n, rest) := by
  induction len generalizing n with
  | zero => omega
  | succ len ih =>
      cases len with
      | zero =>
          have hsmall : n < 128 := by simpa using h
          have hbyte : (UInt8.ofNat n).toNat = n := UInt8.toNat_ofNat_of_lt' (by
            unfold UInt8.size
            omega)
          rw [groups, List.cons_append, List.nil_append, decode, hbyte, if_pos hsmall]
      | succ len =>
          have hbyte : (UInt8.ofNat (n % 128 + 128)).toNat = n % 128 + 128 :=
            UInt8.toNat_ofNat_of_lt' (by
              unfold UInt8.size
              omega)
          have hhigh : n / 128 < 128 ^ (len + 1) := by
            rw [Nat.div_lt_iff_lt_mul (by decide), ← pow_succ]
            exact h
          rw [groups, List.cons_append, decode, hbyte, if_neg (by omega),
            ih (Nat.succ_pos _) hhigh]
          simp only [Option.some.injEq, Prod.mk.injEq, and_true]
          omega

/-- What was encoded is decoded, and the bytes after it are left. -/
@[simp] theorem decode_encode (n : Nat) (rest : List UInt8) :
    decode (encode n ++ rest) = some (n, rest) :=
  decode_groups (size_pos n) (lt_pow_size n) rest

example : encode 624485 = [0xe5, 0x8e, 0x26] := by decide

end JdxLinker.Uleb
