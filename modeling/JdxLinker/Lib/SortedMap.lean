import Mathlib

/-!
# Maps with ascending keys

A map that is kept as the list of its entries, in the order of their keys. A key has one entry at
most, and a later insertion replaces an earlier one.
-/

namespace JdxLinker

structure SortedMap (κ α : Type) [LinearOrder κ] where
  entries : List (κ × α)
  sorted : (entries.map Prod.fst).Pairwise (· < ·)

namespace SortedMap

variable {κ α : Type} [LinearOrder κ]

def empty : SortedMap κ α := ⟨[], .nil⟩

def keys (map : SortedMap κ α) : List κ := map.entries.map Prod.fst

def insertEntry (key : κ) (value : α) : List (κ × α) → List (κ × α)
  | [] => [(key, value)]
  | entry :: rest =>
    if key < entry.1 then (key, value) :: entry :: rest
    else if key = entry.1 then (key, value) :: rest
    else entry :: insertEntry key value rest

theorem mem_insertEntry {key : κ} {value : α} {entries : List (κ × α)} {entry : κ × α}
    (h : entry ∈ insertEntry key value entries) : entry = (key, value) ∨ entry ∈ entries := by
  induction entries with
  | nil => exact .inl (List.mem_singleton.mp h)
  | cons first rest ih =>
      unfold insertEntry at h
      split at h
      · exact List.mem_cons.mp h
      · split at h
        · exact (List.mem_cons.mp h).imp id (List.mem_cons_of_mem first)
        · rcases List.mem_cons.mp h with rfl | h
          · exact .inr List.mem_cons_self
          · exact (ih h).imp id (List.mem_cons_of_mem first)

theorem mem_keys_insertEntry {key other : κ} {value : α} {entries : List (κ × α)} :
    other ∈ (insertEntry key value entries).map Prod.fst
      ↔ other = key ∨ other ∈ entries.map Prod.fst := by
  induction entries with
  | nil => exact List.mem_cons
  | cons first rest ih =>
      unfold insertEntry
      split
      · exact List.mem_cons
      · split
        · rename_i heq
          rw [List.map_cons, List.map_cons, List.mem_cons, List.mem_cons, ← heq, ← or_assoc, or_self]
        · rw [List.map_cons, List.map_cons, List.mem_cons, List.mem_cons, ih, or_left_comm]

theorem sorted_insertEntry {key : κ} {value : α} {entries : List (κ × α)}
    (h : (entries.map Prod.fst).Pairwise (· < ·)) :
    ((insertEntry key value entries).map Prod.fst).Pairwise (· < ·) := by
  induction entries with
  | nil => exact List.pairwise_singleton _ key
  | cons first rest ih =>
      have hrest := List.pairwise_cons.mp h
      unfold insertEntry
      split
      · rename_i hlt
        refine List.pairwise_cons.mpr ⟨fun other hother => ?_, h⟩
        rcases List.mem_cons.mp hother with rfl | hother
        · exact hlt
        · exact hlt.trans (hrest.1 other hother)
      · split
        · rename_i heq
          exact List.pairwise_cons.mpr ⟨fun other hother => heq ▸ hrest.1 other hother, hrest.2⟩
        · rename_i hnot hne
          refine List.pairwise_cons.mpr ⟨fun other hother => ?_, ih hrest.2⟩
          rcases mem_keys_insertEntry.mp hother with rfl | hother
          · exact (not_lt.mp hnot).lt_of_ne (Ne.symm hne)
          · exact hrest.1 other hother

/-- A key after all others is added at the end. -/
theorem insertEntry_of_lt {key : κ} {value : α} {entries : List (κ × α)}
    (h : ∀ entry ∈ entries, entry.1 < key) :
    insertEntry key value entries = entries ++ [(key, value)] := by
  induction entries with
  | nil => rfl
  | cons first rest ih =>
      have hfirst := h first List.mem_cons_self
      unfold insertEntry
      rw [if_neg hfirst.not_gt, if_neg hfirst.ne',
        ih fun entry hentry => h entry (List.mem_cons_of_mem first hentry)]
      rfl

def insert (map : SortedMap κ α) (key : κ) (value : α) : SortedMap κ α :=
  ⟨insertEntry key value map.entries, sorted_insertEntry map.sorted⟩

def get? (map : SortedMap κ α) (key : κ) : Option α :=
  (map.entries.find? fun entry => entry.1 = key).map Prod.snd

def ofList (entries : List (κ × α)) : SortedMap κ α :=
  entries.foldl (fun map entry => map.insert entry.1 entry.2) empty

/-! ### What a map of a list has -/

theorem nodup_keys (map : SortedMap κ α) : map.keys.Nodup := map.sorted.imp ne_of_lt

theorem get?_eq_some {map : SortedMap κ α} {key : κ} {value : α} (h : map.get? key = some value) :
    (key, value) ∈ map.entries := by
  obtain ⟨entry, hfind, rfl⟩ := Option.map_eq_some_iff.mp h
  have hdecide := List.find?_some hfind
  obtain rfl : entry.1 = key := of_decide_eq_true hdecide
  exact List.mem_of_find?_eq_some hfind

theorem get?_eq_none {map : SortedMap κ α} {key : κ} : map.get? key = none ↔ key ∉ map.keys := by
  unfold get? keys
  rw [Option.map_eq_none_iff, List.find?_eq_none, List.mem_map]
  simp only [decide_eq_true_eq, not_exists, not_and]

theorem mem_foldl_insert {entries : List (κ × α)} {map : SortedMap κ α} {entry : κ × α}
    (h : entry ∈ (entries.foldl (fun map entry => map.insert entry.1 entry.2) map).entries) :
    entry ∈ map.entries ∨ entry ∈ entries := by
  induction entries generalizing map with
  | nil => exact .inl h
  | cons first rest ih =>
      rcases ih h with h | h
      · rcases mem_insertEntry h with rfl | h
        · exact .inr List.mem_cons_self
        · exact .inl h
      · exact .inr (List.mem_cons_of_mem first h)

theorem mem_keys_foldl_insert {entries : List (κ × α)} {map : SortedMap κ α} {key : κ} :
    key ∈ (entries.foldl (fun map entry => map.insert entry.1 entry.2) map).keys
      ↔ key ∈ map.keys ∨ key ∈ entries.map Prod.fst := by
  induction entries generalizing map with
  | nil => exact (or_iff_left (List.not_mem_nil)).symm
  | cons first rest ih =>
      rw [List.foldl_cons, ih, List.map_cons, List.mem_cons, ← or_assoc]
      refine or_congr_left ?_
      exact mem_keys_insertEntry.trans or_comm

theorem mem_ofList {entries : List (κ × α)} {entry : κ × α} (h : entry ∈ (ofList entries).entries) :
    entry ∈ entries :=
  (mem_foldl_insert h).resolve_left List.not_mem_nil

theorem mem_keys_ofList {entries : List (κ × α)} {key : κ} :
    key ∈ (ofList entries).keys ↔ key ∈ entries.map Prod.fst :=
  mem_keys_foldl_insert.trans (or_iff_right List.not_mem_nil)

end SortedMap

end JdxLinker
