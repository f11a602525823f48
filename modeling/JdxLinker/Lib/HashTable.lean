import Mathlib

/-!
# Hash tables

A table that has one entry for each of its keys, and is gone through in an order that no one knows. What
a table holds for a key after a run of updates depends on the updates of that key only.
-/

namespace JdxLinker

structure HashTable (κ α : Type) where
  entries : List (κ × α)
  nodup : (entries.map Prod.fst).Nodup

/-- An order to go through entries in. -/
structure Iteration (κ α : Type) where
  order : List (κ × α) → List (κ × α)
  perm : ∀ entries, (order entries).Perm entries

namespace HashTable

variable {κ α β : Type}

def empty : HashTable κ α := ⟨[], List.nodup_nil⟩

variable [DecidableEq κ]

def get? (table : HashTable κ α) (key : κ) : Option α :=
  (table.entries.find? fun entry => entry.1 = key).map Prod.snd

/-- Entries of which one is replaced, or that get a new one. -/
def updateEntries (key : κ) (f : Option α → α) : List (κ × α) → List (κ × α)
  | [] => [(key, f none)]
  | entry :: rest =>
      if entry.1 = key then (key, f (some entry.2)) :: rest
      else entry :: updateEntries key f rest

theorem mem_keys_updateEntries {key other : κ} {f : Option α → α} {entries : List (κ × α)} :
    other ∈ (updateEntries key f entries).map Prod.fst ↔
      other = key ∨ other ∈ entries.map Prod.fst := by
  induction entries with
  | nil => exact List.mem_cons
  | cons entry rest ih =>
      rw [updateEntries]
      split
      · rename_i heq
        rw [List.map_cons, List.map_cons, List.mem_cons, List.mem_cons, heq, ← or_assoc, or_self]
      · rw [List.map_cons, List.map_cons, List.mem_cons, List.mem_cons, ih, or_left_comm]

theorem nodup_updateEntries {key : κ} {f : Option α → α} {entries : List (κ × α)}
    (h : (entries.map Prod.fst).Nodup) : ((updateEntries key f entries).map Prod.fst).Nodup := by
  induction entries with
  | nil => exact List.nodup_singleton key
  | cons entry rest ih =>
      have hcons := List.nodup_cons.mp h
      rw [updateEntries]
      split
      · rename_i heq
        exact List.nodup_cons.mpr ⟨heq ▸ hcons.1, hcons.2⟩
      · rename_i hne
        refine List.nodup_cons.mpr ⟨fun hmem => ?_, ih hcons.2⟩
        obtain heq | hmem := mem_keys_updateEntries.mp hmem
        · exact hne heq
        · exact hcons.1 hmem

/-- Sets what the table has for a key, with what it had. -/
def update (table : HashTable κ α) (key : κ) (f : Option α → α) : HashTable κ α :=
  ⟨updateEntries key f table.entries, nodup_updateEntries table.nodup⟩

theorem find?_updateEntries (key other : κ) (f : Option α → α) (entries : List (κ × α)) :
    ((updateEntries key f entries).find? fun entry => entry.1 = other).map Prod.snd =
      if other = key then some (f ((entries.find? fun entry => entry.1 = key).map Prod.snd))
      else (entries.find? fun entry => entry.1 = other).map Prod.snd := by
  induction entries with
  | nil =>
      by_cases h : other = key
      · simp [updateEntries, h]
      · simp [updateEntries, h, Ne.symm h]
  | cons entry rest ih =>
      rw [updateEntries]
      by_cases hentry : entry.1 = key
      · by_cases h : other = key
        · simp [hentry, h]
        · simp [hentry, h, Ne.symm h]
      · rw [if_neg hentry]
        by_cases h : entry.1 = other
        · have hne : other ≠ key := fun heq => hentry (h.trans heq)
          simp [h, hne]
        · rw [List.find?_cons_of_neg (by simpa using h), ih,
            List.find?_cons_of_neg (by simpa using hentry),
            List.find?_cons_of_neg (by simpa using h)]

theorem get?_update (table : HashTable κ α) (key other : κ) (f : Option α → α) :
    (table.update key f).get? other =
      if other = key then some (f (table.get? key)) else table.get? other :=
  find?_updateEntries key other f table.entries

theorem get?_empty (key : κ) : (empty : HashTable κ α).get? key = none := rfl

/-- The entry of a key is what the table has for it. -/
theorem mem_entries_iff {table : HashTable κ α} {key : κ} {a : α} :
    (key, a) ∈ table.entries ↔ table.get? key = some a := by
  obtain ⟨entries, hnodup⟩ := table
  show (key, a) ∈ entries ↔ (entries.find? fun entry => entry.1 = key).map Prod.snd = some a
  induction entries with
  | nil => simp
  | cons entry rest ih =>
      obtain ⟨hnot, hrest⟩ := List.nodup_cons.mp hnodup
      by_cases hkey : entry.1 = key
      · have hmem : ∀ b, (key, b) ∉ rest := fun b hb =>
          hnot (hkey ▸ List.mem_map_of_mem (f := Prod.fst) hb)
        obtain ⟨first, second⟩ := entry
        obtain rfl : first = key := hkey
        simp [hmem a, eq_comm]
      · rw [List.mem_cons, List.find?_cons_of_neg (by simpa using hkey), ih hrest]
        exact or_iff_right fun heq => hkey (congrArg Prod.fst heq).symm

/-- What a run of updates leaves for a key. -/
theorem get?_foldl_update (items : List β) (keyOf : β → κ) (f : β → Option α → α)
    (table : HashTable κ α) (key : κ) :
    (items.foldl (fun table item => table.update (keyOf item) (f item)) table).get? key =
      (items.filter fun item => keyOf item = key).foldl (fun a item => some (f item a))
        (table.get? key) := by
  induction items generalizing table with
  | nil => rfl
  | cons item items ih =>
      rw [List.foldl_cons, ih, get?_update]
      by_cases h : keyOf item = key
      · rw [if_pos h.symm, List.filter_cons_of_pos (by simpa using h), List.foldl_cons, h]
      · rw [if_neg (Ne.symm h), List.filter_cons_of_neg (by simpa using h)]

/-- A new key comes after the others. -/
theorem updateEntries_of_notMem {key : κ} (f : Option α → α) {entries : List (κ × α)}
    (h : key ∉ entries.map Prod.fst) : updateEntries key f entries = entries ++ [(key, f none)] := by
  induction entries with
  | nil => rfl
  | cons entry rest ih =>
      rw [List.map_cons] at h
      obtain ⟨hne, hrest⟩ := List.ne_and_not_mem_of_not_mem_cons h
      rw [updateEntries, if_neg hne.symm, ih hrest, List.cons_append]

theorem length_updateEntries {key : κ} (f : Option α → α) {entries : List (κ × α)}
    (h : key ∈ entries.map Prod.fst) : (updateEntries key f entries).length = entries.length := by
  induction entries with
  | nil => cases h
  | cons entry rest ih =>
      rw [updateEntries]
      split
      · rfl
      · rename_i hne
        have hrest := (List.mem_cons.mp h).resolve_left (Ne.symm hne)
        rw [List.length_cons, ih hrest, List.length_cons]

/-- A table has one entry of a key at most. -/
theorem filter_entries (table : HashTable κ α) (key : κ) :
    (table.entries.filter fun entry => entry.1 = key) =
      ((table.get? key).map fun a => (key, a)).toList := by
  obtain ⟨entries, hnodup⟩ := table
  show (entries.filter fun entry => entry.1 = key) =
    (((entries.find? fun entry => entry.1 = key).map Prod.snd).map fun a => (key, a)).toList
  induction entries with
  | nil => rfl
  | cons entry rest ih =>
      obtain ⟨hnot, hrest⟩ := List.nodup_cons.mp hnodup
      by_cases hkey : entry.1 = key
      · have hnone : (rest.filter fun entry => entry.1 = key) = [] := by
          rw [List.filter_eq_nil_iff]
          intro other hother heq
          have hsame : other.1 = entry.1 := (of_decide_eq_true heq).trans hkey.symm
          exact hnot (hsame ▸ List.mem_map_of_mem hother)
        rw [List.filter_cons_of_pos (by simpa using hkey),
          List.find?_cons_of_pos (by simpa using hkey), hnone, ← hkey]
        rfl
      · rw [List.filter_cons_of_neg (by simpa using hkey),
          List.find?_cons_of_neg (by simpa using hkey), ih hrest]

/-- The table with its entries in the order in which they are gone through. -/
def reorder (table : HashTable κ α) (iteration : Iteration κ α) : HashTable κ α :=
  ⟨iteration.order table.entries,
    ((iteration.perm table.entries).map Prod.fst).nodup_iff.mpr table.nodup⟩

theorem get?_reorder (table : HashTable κ α) (iteration : Iteration κ α) (key : κ) :
    (table.reorder iteration).get? key = table.get? key := by
  apply Option.ext
  intro a
  rw [← mem_entries_iff, ← mem_entries_iff]
  exact (iteration.perm table.entries).mem_iff

end HashTable

end JdxLinker
