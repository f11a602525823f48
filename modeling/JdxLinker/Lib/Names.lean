import Mathlib

/-!
# The order of byte strings

Two facts about the lexicographic order: what being less says at the end of the common prefix, and
how a common prefix with a smaller next byte makes a string less.
-/

namespace JdxLinker.Names

/-- Strings that agree up to a position where the byte of the first is the smaller. -/
def Precedes (position : Nat) (a b : List UInt8) : Prop :=
  a.take position = b.take position ∧ ∃ x y, a[position]? = some x ∧ b[position]? = some y ∧ x < y

theorem Precedes.trans {position : Nat} {a b c : List UInt8} (hab : Precedes position a b)
    (hbc : Precedes position b c) : Precedes position a c := by
  obtain ⟨htake, x, y, hx, hy, hxy⟩ := hab
  obtain ⟨htake', y', z, hy', hz, hyz⟩ := hbc
  obtain rfl : y = y' := Option.some.inj (hy.symm.trans hy')
  exact ⟨htake.trans htake', x, z, hx, hz, UInt8.lt_trans hxy hyz⟩

/-- Bytes beyond the position can be dropped from the first string. -/
theorem Precedes.shorten_left {position : Nat} {a a' b : List UInt8} (h : Precedes position a b)
    (ha : a' <+: a) (hlt : position < a'.length) : Precedes position a' b := by
  obtain ⟨heq, x, y, hx, hy, hxy⟩ := h
  obtain ⟨s, rfl⟩ := ha
  refine ⟨?_, x, y, ?_, hy, hxy⟩
  · rw [← heq, List.take_append_of_le_length hlt.le]
  · rw [← hx, List.getElem?_append_left hlt]

/-- Bytes beyond the position can be dropped from the second string. -/
theorem Precedes.shorten_right {position : Nat} {a b b' : List UInt8} (h : Precedes position a b)
    (hb : b' <+: b) (hlt : position < b'.length) : Precedes position a b' := by
  obtain ⟨heq, x, y, hx, hy, hxy⟩ := h
  obtain ⟨s, rfl⟩ := hb
  refine ⟨?_, x, y, hx, ?_, hxy⟩
  · rw [heq, List.take_append_of_le_length hlt.le]
  · rw [← hy, List.getElem?_append_left hlt]

/-- Strings compare as their parts do after the position. -/
theorem Precedes.extend {position : Nat} {a a' b b' : List UInt8} (h : Precedes position a b)
    (ha : a <+: a') (hb : b <+: b') : Precedes position a' b' := by
  obtain ⟨heq, x, y, hx, hy, hxy⟩ := h
  obtain ⟨s, rfl⟩ := ha
  obtain ⟨t, rfl⟩ := hb
  have hla := (List.getElem?_eq_some_iff.mp hx).1
  have hlb := (List.getElem?_eq_some_iff.mp hy).1
  refine ⟨?_, x, y, ?_, ?_, hxy⟩
  · rw [List.take_append_of_le_length hla.le, List.take_append_of_le_length hlb.le, heq]
  · rw [List.getElem?_append_left hla, hx]
  · rw [List.getElem?_append_left hlb, hy]

theorem Precedes.lt {position : Nat} {a b : List UInt8} (h : Precedes position a b) : a < b := by
  obtain ⟨heq, x, y, hx, hy, hxy⟩ := h
  induction position generalizing a b with
  | zero =>
      cases a with
      | nil => simp at hx
      | cons x' a =>
          cases b with
          | nil => simp at hy
          | cons y' b =>
              obtain rfl : x' = x := by simpa using hx
              obtain rfl : y' = y := by simpa using hy
              exact List.cons_lt_cons_iff.mpr (.inl hxy)
  | succ position ih =>
      cases a with
      | nil => simp at hx
      | cons x' a =>
          cases b with
          | nil => simp at hy
          | cons y' b =>
              simp only [List.take_succ_cons, List.cons.injEq] at heq
              exact List.cons_lt_cons_iff.mpr
                (.inr ⟨heq.1, ih heq.2 (by simpa using hx) (by simpa using hy)⟩)

theorem lt_of_isPrefix {a b : List UInt8} (h : a <+: b) (hlt : a.length < b.length) : a < b := by
  obtain ⟨c, rfl⟩ := h
  induction a with
  | nil =>
      cases c with
      | nil => exact absurd hlt (Nat.lt_irrefl _)
      | cons x c => exact List.nil_lt_cons x c
  | cons x a ih =>
      exact List.cons_lt_cons_iff.mpr (.inr ⟨rfl, ih (Nat.lt_of_succ_lt_succ hlt)⟩)

/-- The number of leading bytes that two strings share. -/
def commonPrefixLength (a b : List UInt8) : Nat :=
  ((a.zip b).takeWhile fun pair => pair.1 == pair.2).length

theorem commonPrefixLength_cons (x y : UInt8) (a b : List UInt8) :
    commonPrefixLength (x :: a) (y :: b) = if x = y then commonPrefixLength a b + 1 else 0 := by
  unfold commonPrefixLength
  rw [List.zip_cons_cons, List.takeWhile_cons]
  by_cases hxy : x = y <;> simp [hxy]

theorem take_commonPrefixLength (a b : List UInt8) :
    a.take (commonPrefixLength a b) = b.take (commonPrefixLength a b) := by
  induction a generalizing b with
  | nil => simp [commonPrefixLength]
  | cons x a ih =>
      cases b with
      | nil => simp [commonPrefixLength]
      | cons y b =>
          rw [commonPrefixLength_cons]
          split
          · rename_i hxy
            rw [List.take_succ_cons, List.take_succ_cons, hxy, ih]
          · rfl

theorem commonPrefixLength_le (a b : List UInt8) :
    commonPrefixLength a b ≤ a.length ∧ commonPrefixLength a b ≤ b.length := by
  have h : commonPrefixLength a b ≤ (a.zip b).length := List.takeWhile_prefix _ |>.length_le
  rw [List.length_zip] at h
  omega

/-- The greater of two strings goes on after the common prefix, with the greater byte there. -/
theorem commonPrefixLength_of_lt {a b : List UInt8} (h : a < b) :
    commonPrefixLength a b < b.length ∧ (commonPrefixLength a b < a.length →
      Precedes (commonPrefixLength a b) a b) := by
  induction a generalizing b with
  | nil =>
      cases b with
      | nil => exact absurd h (List.not_lt_nil _)
      | cons y b => simp [commonPrefixLength]
  | cons x a ih =>
      cases b with
      | nil => exact absurd h (List.not_lt_nil _)
      | cons y b =>
          rw [commonPrefixLength_cons]
          rcases List.cons_lt_cons_iff.mp h with hxy | ⟨rfl, hab⟩
          · rw [if_neg (UInt8.ne_of_lt hxy)]
            exact ⟨Nat.succ_pos _, fun _ => ⟨rfl, x, y, rfl, rfl, hxy⟩⟩
          · obtain ⟨hlt, hprecedes⟩ := ih hab
            rw [if_pos rfl]
            refine ⟨by simpa using hlt, fun hlen => ?_⟩
            obtain ⟨htake, u, v, hu, hv, huv⟩ := hprecedes (by simpa using hlen)
            exact ⟨by simp [htake], u, v, by simpa using hu, by simpa using hv, huv⟩

end JdxLinker.Names
