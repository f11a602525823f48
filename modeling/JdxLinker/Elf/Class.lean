import Mathlib.Data.Nat.Basic
import Mathlib.Data.List.Basic

/-!
# ELF classes

The entry sizes that the code reads off its `ElfClass` parameter. A RELR bitmap is one `u64` whose
low bit is a marker, so an entry has at most eight bytes.
-/

namespace JdxLinker

/-- The entry sizes of an ELF class, in bytes. -/
structure ElfClass where
  addressSize : Nat
  relaEntrySize : Nat
  relrEntrySize : Nat
  relrEntrySize_pos : 0 < relrEntrySize
  relrEntrySize_le : relrEntrySize ≤ 8

/-- The only class the linker implements. -/
def Class64 : ElfClass where
  addressSize := 8
  relaEntrySize := 24
  relrEntrySize := 8
  relrEntrySize_pos := by decide
  relrEntrySize_le := by decide

namespace ElfClass

variable (C : ElfClass)

def gotEntrySize : Nat := C.addressSize

/-- The number of words that one RELR bitmap entry covers. -/
def relrBitmapSlots : Nat := C.relrEntrySize * 8 - 1

theorem relrBitmapSlots_pos : 0 < C.relrBitmapSlots := by
  have := C.relrEntrySize_pos
  unfold relrBitmapSlots
  omega

theorem relrBitmapSlots_le : C.relrBitmapSlots ≤ 63 := by
  have := C.relrEntrySize_le
  unfold relrBitmapSlots
  omega

end ElfClass

example : Class64.relrBitmapSlots = 63 := rfl

end JdxLinker

/-!
## Tables reserved by the layout

The writer fills a table through a slice whose length was fixed while sizes were computed. Taking an
entry shortens the slice, and fails once the reservation is used up.
-/

namespace JdxLinker

/-- A reserved table: the entries written so far, oldest first, and the slots still free. -/
structure Table (α : Type) where
  entries : List α
  free : Nat
  deriving Repr, DecidableEq

/-- The error for a table that was reserved too small. -/
def insufficientAllocation (sectionName : String) : String :=
  "Insufficient " ++ sectionName ++ " allocation."

namespace Table

variable {α : Type}

/-- A table with `n` reserved slots and nothing written. -/
def reserve (n : Nat) : Table α := ⟨[], n⟩

/-- Takes the next free slot and stores `x` in it. -/
def take (t : Table α) (sectionName : String) (x : α) : Except String (Table α) :=
  match t.free with
  | 0 => .error (insufficientAllocation sectionName)
  | n + 1 => .ok ⟨t.entries ++ [x], n⟩

/-- Overwrites the entry at `i`, which must have been written before. -/
def set (t : Table α) (i : Nat) (x : α) : Table α := { t with entries := t.entries.set i x }

theorem take_ok {t t' : Table α} {name : String} {x : α} (h : t.take name x = .ok t') :
    t'.entries = t.entries ++ [x] ∧ t'.free + 1 = t.free := by
  unfold take at h
  split at h
  · cases h
  · cases h
    rename_i hfree
    exact ⟨rfl, hfree.symm⟩

theorem take_eq_ok {t : Table α} (name : String) (x : α) (h : 0 < t.free) :
    t.take name x = .ok ⟨t.entries ++ [x], t.free - 1⟩ := by
  obtain ⟨entries, free⟩ := t
  cases free with
  | zero => exact absurd h (by simp)
  | succ n => rfl

theorem take_error {t : Table α} (name : String) (x : α) (h : t.free = 0) :
    t.take name x = .error (insufficientAllocation name) := by
  unfold take
  rw [h]

end Table

end JdxLinker
