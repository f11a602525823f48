import Mathlib.Data.List.SplitBy
import Mathlib.Data.List.Chain
import Mathlib.Order.Basic
import Mathlib.Data.List.Basic

/-!
# Cutting a list where a key changes

`List.splitBy` cuts a list into maximal runs of related neighbours. Cut by a key, the runs have one
key each, and where the list is sorted by the key the keys of the runs increase strictly.
-/

namespace JdxLinker.Chunks

variable {α : Type} (key : α → Nat)

/-- The runs of one key. -/
def chunkBy (l : List α) : List (List α) := l.splitBy fun a b => key a == key b

theorem flatten_chunkBy (l : List α) : (chunkBy key l).flatten = l := List.flatten_splitBy _ _

theorem ne_nil_of_mem_chunkBy {l chunk : List α} (h : chunk ∈ chunkBy key l) : chunk ≠ [] :=
  List.ne_nil_of_mem_splitBy h

theorem mem_of_mem_chunkBy {l chunk : List α} (h : chunk ∈ chunkBy key l) {a : α}
    (ha : a ∈ chunk) : a ∈ l := by
  rw [← flatten_chunkBy key l]
  exact List.mem_flatten.mpr ⟨chunk, h, ha⟩

/-- Every item of a run has its key. -/
theorem key_eq_of_mem_chunkBy {l chunk : List α} (h : chunk ∈ chunkBy key l) {a b : α}
    (ha : a ∈ chunk) (hb : b ∈ chunk) : key a = key b := by
  have hchain : (chunk.map key).IsChain (· = ·) := by
    rw [List.isChain_map]
    exact (List.isChain_of_mem_splitBy h).imp fun a b hab => by simpa using hab
  have hall := List.pairwise_map.mp (List.isChain_iff_pairwise.mp hchain)
  by_cases hab : a = b
  · rw [hab]
  · have hsymm : Std.Symm fun a b => key a = key b := ⟨fun _ _ h => h.symm⟩
    exact hall.forall ha hb hab

/-- Runs of one key each, that never decrease and differ from their neighbours, increase. -/
private theorem keys_lt_of_chain {key : α → Nat} : ∀ {chunks : List (List α)},
    (∀ c ∈ chunks, c ≠ []) →
    (∀ c ∈ chunks, ∀ a ∈ c, ∀ b ∈ c, key a = key b) →
    chunks.Pairwise (fun c d => ∀ a ∈ c, ∀ b ∈ d, key a ≤ key b) →
    chunks.IsChain (fun c d => ∃ hc hd, (key (c.getLast hc) == key (d.head hd)) = false) →
    chunks.Pairwise fun c d => ∀ a ∈ c, ∀ b ∈ d, key a < key b
  | [], _, _, _, _ => .nil
  | [c], _, _, _, _ => List.pairwise_singleton _ _
  | c :: d :: chunks, hne, hconst, hle, hchain => by
      have hrest := keys_lt_of_chain (fun c hc => hne c (List.mem_cons_of_mem _ hc))
        (fun c hc => hconst c (List.mem_cons_of_mem _ hc)) hle.of_cons hchain.tail
      obtain ⟨hc, hd, hdiff⟩ := (List.isChain_cons_cons.mp hchain).1
      have hstep : ∀ a ∈ c, ∀ b ∈ d, key a < key b := by
        intro a ha b hb
        have hab := List.rel_of_pairwise_cons hle List.mem_cons_self a ha b hb
        have hlast := hconst c List.mem_cons_self a ha _ (List.getLast_mem hc)
        have hhead := hconst d (List.mem_cons_of_mem _ List.mem_cons_self) b hb _
          (List.head_mem hd)
        have hne' : key (c.getLast hc) ≠ key (d.head hd) := by simpa using hdiff
        omega
      refine List.pairwise_cons.mpr ⟨fun e he => ?_, hrest⟩
      rcases List.mem_cons.mp he with rfl | he
      · exact hstep
      · intro a ha b hb
        have hmid := List.head_mem hd
        have hlt := List.rel_of_pairwise_cons hrest he _ hmid b hb
        have hlt' := hstep a ha _ hmid
        omega

/-- In a list sorted by the key, the keys of the runs increase. -/
theorem chunkBy_keys_lt {l : List α} (h : l.Pairwise fun a b => key a ≤ key b) :
    (chunkBy key l).Pairwise fun c d => ∀ a ∈ c, ∀ b ∈ d, key a < key b := by
  have hle : (chunkBy key l).Pairwise fun c d => ∀ a ∈ c, ∀ b ∈ d, key a ≤ key b := by
    rw [← flatten_chunkBy key l] at h
    exact (List.pairwise_flatten.mp h).2
  apply keys_lt_of_chain _ _ hle
    (List.isChain_getLast_head_splitBy (fun a b => key a == key b) l)
  · intro c hc
    exact ne_nil_of_mem_chunkBy key hc
  · intro c hc a ha b hb
    exact key_eq_of_mem_chunkBy key hc ha hb

end JdxLinker.Chunks

/-!
## Items filed under keys

A table that files items under keys, and searches only the items under one key, in the order in which
they were inserted. The search finds the first item of all exactly if that item is under the key.
-/

namespace JdxLinker.Filed

variable {α κ : Type}

/-- The items with their keys, in the order of their insertion. -/
structure Table (κ α : Type) where
  entries : List (κ × α)

namespace Table

def empty : Table κ α := ⟨[]⟩

def insert (table : Table κ α) (key : κ) (item : α) : Table κ α :=
  ⟨table.entries ++ [(key, item)]⟩

/-- The first item under the key that passes the test. -/
def find [DecidableEq κ] (table : Table κ α) (key : κ) (test : α → Bool) : Option α :=
  ((table.entries.filter fun entry => entry.1 = key).map Prod.snd).find? test

theorem foldl_insert (key : α → κ) (items : List α) (table : Table κ α) :
    (items.foldl (fun table item => table.insert (key item) item) table).entries
      = table.entries ++ items.map fun item => (key item, item) := by
  induction items generalizing table with
  | nil => exact (List.append_nil _).symm
  | cons item items ih =>
      rw [List.foldl_cons, ih, List.map_cons]
      exact List.append_assoc _ [(key item, item)] _

variable [DecidableEq κ]

/-- A table of items that file themselves is searched like the list of the items with the key. -/
theorem find_foldl_insert (keyOf : α → κ) (items : List α) (key : κ) (test : α → Bool) :
    (items.foldl (fun table item => table.insert (keyOf item) item) empty).find key test
      = (items.filter fun item => keyOf item = key).find? test := by
  unfold find
  rw [foldl_insert]
  apply congrArg (List.find? test)
  show (((items.map fun item => (keyOf item, item)).filter fun entry => entry.1 = key).map
    Prod.snd) = _
  rw [List.filter_map, List.map_map]
  exact List.map_id _

/-- The search under a key finds the first item that passes the test exactly if it is under the
key. -/
theorem find?_filter_eq_iff {keyOf : α → κ} {items : List α} {key : κ} {test : α → Bool} :
    (items.filter fun item => keyOf item = key).find? test = items.find? test
      ↔ ∀ item ∈ items.find? test, keyOf item = key := by
  constructor
  · intro h item hitem
    rw [← h] at hitem
    have hmem := List.mem_of_find?_eq_some hitem
    simpa using (List.mem_filter.mp hmem).2
  · intro h
    induction items with
    | nil => rfl
    | cons first items ih =>
        cases htest : test first with
        | true =>
            have hkey : keyOf first = key := h first (by rw [List.find?_cons_of_pos htest]; rfl)
            rw [List.filter_cons_of_pos (by simpa using hkey), List.find?_cons_of_pos htest,
              List.find?_cons_of_pos htest]
        | false =>
            have hrest : items.find? test = (first :: items).find? test :=
              (List.find?_cons_of_neg (by simp [htest])).symm
            rw [← hrest] at h ⊢
            rw [List.filter_cons]
            split
            · rw [List.find?_cons_of_neg (by simp [htest])]
              exact ih h
            · exact ih h

end Table

end JdxLinker.Filed
