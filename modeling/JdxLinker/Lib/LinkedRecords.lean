import JdxLinker.Lib.Bytes

/-!
# Records that tell where the next one is

A table of records of one size, each of which may be followed by bytes of its own, is read by going
from its first record on by the distances that the records have, up to one with the distance 0.
-/

namespace JdxLinker.LinkedRecords

open Bytes

/-- How records of one size are written and read, and how far a record says the next one is. -/
structure Format (α : Type) where
  size : Nat
  encode : α → List UInt8
  decode : List UInt8 → α
  next : α → Nat
  encode_length : ∀ a, (encode a).length = size
  decode_encode : ∀ a, decode (encode a) = a
  size_pos : 0 < size

namespace Format

variable {α : Type} (format : Format α)

def read (bytes : List UInt8) (position : Nat) : Option α :=
  if position + format.size ≤ bytes.length then
    some (format.decode (slice bytes position format.size))
  else
    none

/-- The records that are visited from a position, with their positions. -/
inductive Visits (bytes : List UInt8) : Nat → List (Nat × α) → Prop where
  | last {position : Nat} {a : α} (h : format.read bytes position = some a)
      (hlast : format.next a = 0) : Visits bytes position [(position, a)]
  | next {position : Nat} {a : α} {rest : List (Nat × α)} (h : format.read bytes position = some a)
      (hnext : format.next a ≠ 0) (hrest : Visits bytes (position + format.next a) rest) :
      Visits bytes position ((position, a) :: rest)

/-- Every visit starts at a record. -/
theorem Visits.exists_read {bytes : List UInt8} {position : Nat} {visited : List (Nat × α)}
    (h : format.Visits bytes position visited) : ∃ a, format.read bytes position = some a := by
  cases h with
  | last h _ => exact ⟨_, h⟩
  | next h _ _ => exact ⟨_, h⟩

theorem read_nil (position : Nat) : format.read [] position = none := by
  have hpos := format.size_pos
  apply if_neg
  rw [List.length_nil]
  omega

theorem read_append (before after : List UInt8) (a : α) :
    format.read (before ++ (format.encode a ++ after)) before.length = some a := by
  have hlen := format.encode_length a
  have hslice : slice (before ++ (format.encode a ++ after)) before.length format.size =
      format.encode a := by
    rw [slice, List.drop_left, ← hlen, List.take_left]
  rw [read, if_pos, hslice, format.decode_encode]
  rw [List.length_append, List.length_append]
  omega

/-! ### Tables -/

/-- Records one after another, each with the bytes that follow it. -/
def table (blocks : List (α × List UInt8)) : List UInt8 :=
  blocks.flatMap fun block => format.encode block.1 ++ block.2

def positions : Nat → List (α × List UInt8) → List (Nat × α)
  | _, [] => []
  | position, block :: blocks =>
      (position, block.1) :: positions (position + (format.size + block.2.length)) blocks

/-- Every record tells the distance to the one after it. -/
def Linked : List (α × List UInt8) → Prop
  | [] => True
  | [block] => format.next block.1 = 0
  | block :: block' :: blocks =>
      format.next block.1 = format.size + block.2.length ∧ Linked (block' :: blocks)

/-- The records of a table are linked if only the last of them has the distance 0. -/
theorem linked_of_getElem? {blocks : List (α × List UInt8)}
    (h : ∀ i block, blocks[i]? = some block → format.next block.1 =
      if i + 1 < blocks.length then format.size + block.2.length else 0) :
    format.Linked blocks := by
  induction blocks with
  | nil => trivial
  | cons block blocks ih =>
      cases blocks with
      | nil => exact h 0 block rfl
      | cons block' blocks =>
          constructor
          · rw [h 0 block rfl, if_pos]
            simp only [List.length_cons]
            omega
          · apply ih
            intro i block'' hget
            rw [h (i + 1) block'' hget]
            simp only [List.length_cons, Nat.add_lt_add_iff_right]

/-- Following a table visits all of its records. -/
theorem visits_table {blocks : List (α × List UInt8)} (h : format.Linked blocks)
    (hne : blocks ≠ []) (before after : List UInt8) :
    format.Visits (before ++ (format.table blocks ++ after)) before.length
      (format.positions before.length blocks) := by
  induction blocks generalizing before with
  | nil => exact absurd rfl hne
  | cons block blocks ih =>
      have hbytes : before ++ (format.table (block :: blocks) ++ after) =
          before ++ (format.encode block.1 ++ (block.2 ++ (format.table blocks ++ after))) := by
        rw [table, List.flatMap_cons, List.append_assoc, List.append_assoc, table]
      have hread := format.read_append before (block.2 ++ (format.table blocks ++ after)) block.1
      rw [← hbytes] at hread
      cases blocks with
      | nil => exact .last hread h
      | cons block' blocks =>
          obtain ⟨hnext, hlinked⟩ := h
          have hpos := format.size_pos
          have hih := ih hlinked (List.cons_ne_nil _ _) (before ++ (format.encode block.1 ++ block.2))
          rw [List.length_append, List.length_append, format.encode_length, List.append_assoc,
            List.append_assoc, ← hbytes] at hih
          apply Visits.next hread
          · omega
          · rw [hnext]
            exact hih

/-- Where a record of a table is, and what follows it. -/
theorem positions_getElem? {blocks : List (α × List UInt8)} (before after : List UInt8) {i : Nat}
    {a : α} {tail : List UInt8} (h : blocks[i]? = some (a, tail)) :
    ∃ before' after', before ++ (format.table blocks ++ after) =
        before' ++ (format.encode a ++ (tail ++ after')) ∧
      (format.positions before.length blocks)[i]? = some (before'.length, a) := by
  induction blocks generalizing before i with
  | nil => cases h
  | cons block blocks ih =>
      have hbytes : before ++ (format.table (block :: blocks) ++ after) =
          before ++ (format.encode block.1 ++ (block.2 ++ (format.table blocks ++ after))) := by
        rw [table, List.flatMap_cons, List.append_assoc, List.append_assoc, table]
      cases i with
      | zero =>
          cases h
          exact ⟨before, _, hbytes, rfl⟩
      | succ i =>
          obtain ⟨before', after', hsplit, hget⟩ :=
            ih (before ++ (format.encode block.1 ++ block.2)) h
          rw [List.length_append, List.length_append, format.encode_length] at hget
          rw [List.append_assoc, List.append_assoc, ← hbytes] at hsplit
          exact ⟨before', after', hsplit, hget⟩

theorem positions_length (position : Nat) (blocks : List (α × List UInt8)) :
    (format.positions position blocks).length = blocks.length := by
  induction blocks generalizing position with
  | nil => rfl
  | cons block blocks ih => rw [positions, List.length_cons, ih, List.length_cons]

theorem table_length (blocks : List (α × List UInt8)) :
    (format.table blocks).length = (blocks.map fun block => format.size + block.2.length).sum := by
  induction blocks with
  | nil => rfl
  | cons block blocks ih =>
      rw [table, List.flatMap_cons, List.length_append, List.length_append, format.encode_length,
        ← table, ih, List.map_cons, List.sum_cons]

end Format

end JdxLinker.LinkedRecords
