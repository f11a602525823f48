import Mathlib.Algebra.Order.Group.Nat

/-!
# Alignments

An alignment is a power of two, kept as its exponent. Values are rounded up to the next multiple.
-/

namespace JdxLinker

structure Alignment where
  exponent : Nat
  deriving Repr, DecidableEq

namespace Alignment

/-- Eight bytes. -/
def USIZE : Alignment := ⟨3⟩

/-- The page size of Mach-O images on 64-bit Arm. -/
def MACHO_PAGE_ALIGNMENT : Alignment := ⟨14⟩

/-- No alignment at all. -/
def MIN : Alignment := ⟨0⟩

def MAX_ALIGNMENT_EXPONENT : Nat := 21

def value (a : Alignment) : Nat := 2 ^ a.exponent

def max (a b : Alignment) : Alignment := ⟨Nat.max a.exponent b.exponent⟩

def min (a b : Alignment) : Alignment := ⟨Nat.min a.exponent b.exponent⟩

/-- The least multiple of the alignment that is no smaller than `value`. -/
def alignUp (a : Alignment) (value : Nat) : Nat :=
  (value + (a.value - 1)) / a.value * a.value

theorem value_pos (a : Alignment) : 0 < a.value := Nat.two_pow_pos _

theorem le_alignUp (a : Alignment) (x : Nat) : x ≤ a.alignUp x := by
  have hpos := a.value_pos
  have hdiv := Nat.div_add_mod (x + (a.value - 1)) a.value
  have hmod := Nat.mod_lt (x + (a.value - 1)) hpos
  rw [Nat.mul_comm] at hdiv
  unfold alignUp
  omega

theorem alignUp_lt (a : Alignment) (x : Nat) : a.alignUp x < x + a.value := by
  have hpos := a.value_pos
  have hle := Nat.div_mul_le_self (x + (a.value - 1)) a.value
  unfold alignUp
  omega

/-- No multiple of the alignment lies between a value and what it is rounded up to. -/
theorem alignUp_le {a : Alignment} {x y : Nat} (h : x ≤ y) (hdvd : a.value ∣ y) :
    a.alignUp x ≤ y := by
  obtain ⟨k, rfl⟩ := hdvd
  have hpos := a.value_pos
  have hlt : x + (a.value - 1) < a.value * (k + 1) := by
    rw [Nat.mul_succ]
    omega
  have hdiv : (x + (a.value - 1)) / a.value < k + 1 := Nat.div_lt_of_lt_mul hlt
  calc a.alignUp x = a.value * ((x + (a.value - 1)) / a.value) := Nat.mul_comm _ _
    _ ≤ a.value * k := Nat.mul_le_mul_left _ (Nat.le_of_lt_succ hdiv)

theorem dvd_alignUp (a : Alignment) (x : Nat) : a.value ∣ a.alignUp x := Nat.dvd_mul_left _ _

theorem alignUp_eq_iff {a : Alignment} {x : Nat} : a.alignUp x = x ↔ a.value ∣ x :=
  ⟨fun h => h ▸ a.dvd_alignUp x,
    fun h => Nat.le_antisymm (alignUp_le (Nat.le_refl x) h) (a.le_alignUp x)⟩

theorem max_of_le {a b : Alignment} (h : b.exponent ≤ a.exponent) : a.max b = a :=
  congrArg Alignment.mk (Nat.max_eq_left h)

theorem max_of_ge {a b : Alignment} (h : a.exponent ≤ b.exponent) : a.max b = b :=
  congrArg Alignment.mk (Nat.max_eq_right h)

theorem value_dvd_value {a b : Alignment} (h : a.exponent ≤ b.exponent) : a.value ∣ b.value :=
  Nat.pow_dvd_pow 2 h

end Alignment

end JdxLinker
