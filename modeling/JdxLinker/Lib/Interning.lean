import Mathlib.Data.List.Infix
import Mathlib.Data.List.Nodup

/-!
# Tables that share equal entries

A table has at most one entry for each key. An entry is looked for by its key and is added at the
end where there is none, so an index that was handed out keeps its entry while the table grows.
-/

namespace JdxLinker.Interning

variable {α κ : Type} [DecidableEq κ] (key : α → κ)

/-- The index of the entry with the key of `a`, which is added where it is missing. -/
def intern (table : List α) (a : α) : Nat × List α :=
  match table.findIdx? (fun b => key b = key a) with
  | some i => (i, table)
  | none => (table.length, table ++ [a])

/-- Interns the items of a list, in order. -/
def internAll : List α → List α → List Nat × List α
  | table, [] => ([], table)
  | table, a :: as =>
      let rest := internAll (intern key table a).2 as
      ((intern key table a).1 :: rest.1, rest.2)

/-- What is in a table stays at its index when the table grows. -/
theorem getElem?_of_grows {table table' : List α} (h : table <+: table') {i : Nat} {a : α}
    (hget : table[i]? = some a) : table'[i]? = some a := by
  obtain ⟨added, rfl⟩ := h
  rwa [List.getElem?_append_left (List.getElem?_eq_some_iff.mp hget).1]

theorem intern_eq (table : List α) (a : α) :
    (∃ b, table[(intern key table a).1]? = some b ∧ key b = key a ∧ (intern key table a).2 = table) ∨
      (∀ b ∈ table, key b ≠ key a) ∧ intern key table a = (table.length, table ++ [a]) := by
  rw [intern]
  cases hfind : table.findIdx? fun b => key b = key a with
  | some i =>
      obtain ⟨hlt, hkey, -⟩ := List.findIdx?_eq_some_iff_getElem.mp hfind
      exact .inl ⟨table[i], List.getElem?_eq_getElem hlt, of_decide_eq_true hkey, rfl⟩
  | none =>
      refine .inr ⟨fun b hb hkey => ?_, rfl⟩
      have := List.findIdx?_eq_none_iff.mp hfind b hb
      rw [decide_eq_false_iff_not] at this
      exact this hkey

/-- Entries keep their indexes. -/
theorem intern_grows (table : List α) (a : α) : table <+: (intern key table a).2 := by
  rcases intern_eq key table a with ⟨b, -, -, h⟩ | ⟨-, h⟩
  · rw [h]
  · rw [h]
    exact List.prefix_append table [a]

theorem intern_getElem? (table : List α) (a : α) :
    ∃ b, (intern key table a).2[(intern key table a).1]? = some b ∧ key b = key a := by
  rcases intern_eq key table a with ⟨b, hget, hkey, h⟩ | ⟨-, h⟩
  · exact ⟨b, by rw [h, hget], hkey⟩
  · exact ⟨a, by rw [h, List.getElem?_concat_length], rfl⟩

theorem nodup_intern {table : List α} (h : (table.map key).Nodup) (a : α) :
    ((intern key table a).2.map key).Nodup := by
  rcases intern_eq key table a with ⟨b, -, -, heq⟩ | ⟨hnew, heq⟩
  · rwa [heq]
  · rw [heq, List.map_append, List.map_singleton, List.nodup_append]
    refine ⟨h, List.nodup_singleton _, ?_⟩
    intro k hk k' hk' hkk
    obtain ⟨b, hb, rfl⟩ := List.mem_map.mp hk
    exact hnew b hb (hkk.trans (List.mem_singleton.mp hk'))

theorem mem_intern {table : List α} {a b : α} (h : b ∈ (intern key table a).2) :
    b ∈ table ∨ b = a := by
  rcases intern_eq key table a with ⟨-, -, -, heq⟩ | ⟨-, heq⟩
  · rw [heq] at h
    exact .inl h
  · rw [heq] at h
    exact (List.mem_append.mp h).imp_right List.mem_singleton.mp

/-! ### Lists -/

theorem internAll_grows (table as : List α) : table <+: (internAll key table as).2 := by
  induction as generalizing table with
  | nil => exact List.prefix_rfl
  | cons a as ih => exact (intern_grows key table a).trans (ih _)

theorem internAll_length (table as : List α) : (internAll key table as).1.length = as.length := by
  induction as generalizing table with
  | nil => rfl
  | cons a as ih => exact congrArg (· + 1) (ih _)

theorem nodup_internAll {table : List α} (h : (table.map key).Nodup) (as : List α) :
    ((internAll key table as).2.map key).Nodup := by
  induction as generalizing table with
  | nil => exact h
  | cons a as ih => exact ih (nodup_intern key h a)

/-- Each item gets the index of an entry with its key. -/
theorem internAll_getElem? (table : List α) {as : List α} {i : Nat} {a : α} (h : as[i]? = some a) :
    ∃ k b, (internAll key table as).1[i]? = some k ∧
      (internAll key table as).2[k]? = some b ∧ key b = key a := by
  induction as generalizing table i with
  | nil => cases h
  | cons first as ih =>
      cases i with
      | zero =>
          obtain rfl : first = a := by simpa using h
          obtain ⟨b, hget, hkey⟩ := intern_getElem? key table first
          refine ⟨_, b, rfl, ?_, hkey⟩
          exact getElem?_of_grows (internAll_grows key _ as) hget
      | succ i => exact ih _ (by simpa using h)

end JdxLinker.Interning
