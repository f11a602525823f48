import Mathlib.Data.Nat.Bitwise
import Mathlib.Data.List.Basic
import Mathlib.Algebra.Group.Nat.Defs

/-!
# Bit sets packed into a number

A word read as the set of its bit positions, in increasing order. Setting a bit above every bit
already set appends its position, and a run of ones lists the positions below its length. Nothing
here is about one word width: the number of positions looked at is a parameter.
-/

namespace JdxLinker.Bits

/-- The positions below `n` at which `e` has a one, in increasing order. -/
def setBits (n e : Nat) : List Nat := (List.range n).filter e.testBit

@[simp] theorem setBits_zero_left (e : Nat) : setBits 0 e = [] := rfl

theorem setBits_succ (n e : Nat) :
    setBits (n + 1) e = setBits n e ++ if e.testBit n then [n] else [] := by
  rw [setBits, List.range_succ, List.filter_append, ← setBits]
  by_cases h : e.testBit n <;> simp [h]

theorem mem_setBits {n e i : Nat} : i ∈ setBits n e ↔ i < n ∧ e.testBit i = true := by
  simp [setBits]

/-- Only the positions looked at matter. -/
theorem setBits_congr {n e e' : Nat} (h : ∀ i, i < n → e.testBit i = e'.testBit i) :
    setBits n e = setBits n e' := by
  refine List.filter_congr fun i hi => ?_
  exact h i (List.mem_range.mp hi)

theorem testBit_or_shift (e k i : Nat) :
    (e ||| 1 <<< k).testBit i = (e.testBit i || decide (i = k)) := by
  rw [Nat.testBit_or, Nat.shiftLeft_eq, Nat.one_mul, Nat.testBit_two_pow]
  simp only [eq_comm]

/-- Setting a bit above every set bit appends its position. -/
theorem setBits_or_shift {n e k : Nat} (hk : k < n) (hclear : ∀ j, k ≤ j → e.testBit j = false) :
    setBits n (e ||| 1 <<< k) = setBits n e ++ [k] := by
  induction n with
  | zero => omega
  | succ n ih =>
      rw [setBits_succ, setBits_succ, testBit_or_shift]
      by_cases hkn : n = k
      · subst hkn
        have hlow : setBits n (e ||| 1 <<< n) = setBits n e := by
          refine setBits_congr fun i hi => ?_
          rw [testBit_or_shift, decide_eq_false (by omega : ¬ i = n), Bool.or_false]
        simp [hlow, hclear n le_rfl]
      · rw [ih (by omega), hclear n (by omega)]
        simp [hkn]

/-- A run of ones lists every position below its length. -/
theorem setBits_ones {n m : Nat} (hm : m ≤ n) : setBits n (2 ^ m - 1) = List.range m := by
  induction n with
  | zero =>
      obtain rfl : m = 0 := by omega
      rfl
  | succ n ih =>
      rw [setBits_succ, Nat.testBit_two_pow_sub_one]
      by_cases hmn : m ≤ n
      · rw [ih hmn]
        simp [hmn]
      · obtain rfl : m = n + 1 := by omega
        have hlow : setBits n (2 ^ (n + 1) - 1) = List.range n := by
          rw [setBits, List.filter_eq_self]
          intro i hi
          rw [Nat.testBit_two_pow_sub_one]
          exact decide_eq_true (by have := List.mem_range.mp hi; omega)
        rw [hlow, List.range_succ]
        simp

end JdxLinker.Bits

/-!
## Unsigned 64-bit arithmetic on naturals

A `u64` is modelled by a natural number below `2 ^ 64`. The operations that a release build lets
wrap are the natural ones reduced modulo `2 ^ 64`.
-/

namespace JdxLinker.U64

/-- One past the largest `u64`. -/
def size : Nat := 2 ^ 64

/-- The value that a 64-bit register keeps of `x`. -/
def wrap (x : Nat) : Nat := x % size

def wrappingAdd (a b : Nat) : Nat := wrap (a + b)

def wrappingSub (a b : Nat) : Nat := wrap (a + (size - b))

theorem size_eq : size = 18446744073709551616 := rfl

@[simp] theorem wrap_of_lt {x : Nat} (h : x < size) : wrap x = x := Nat.mod_eq_of_lt h

theorem wrap_lt (x : Nat) : wrap x < size := Nat.mod_lt _ (by decide)

theorem wrap_le (x : Nat) : wrap x ≤ x := Nat.mod_le _ _

@[simp] theorem wrap_wrap_add (x y : Nat) : wrap (wrap x + y) = wrap (x + y) :=
  Nat.mod_add_mod _ _ _

@[simp] theorem wrap_add_wrap (x y : Nat) : wrap (x + wrap y) = wrap (x + y) :=
  Nat.add_mod_mod _ _ _

theorem wrappingSub_of_le {a b : Nat} (h : b ≤ a) (ha : a < size) : wrappingSub a b = a - b := by
  unfold wrappingSub wrap
  have hsum : a + (size - b) = (a - b) + size := by omega
  rw [hsum, Nat.add_mod_right, Nat.mod_eq_of_lt (by omega)]

end JdxLinker.U64
