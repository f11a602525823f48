import Mathlib.Data.List.Forall2

/-!
# The first and the last answer

A list is asked for an answer item by item, from the front or from the back. The answer that is found
is told together with the index of its item.
-/

namespace JdxLinker.Precedence

variable {α α' β : Type}

/-- The first answer of a list. -/
def firstAnswer (answer : α → Option β) (items : List α) : Option (Nat × β) :=
  items.zipIdx.findSome? fun entry => (answer entry.1).map fun b => (entry.2, b)

/-- The last answer of a list. -/
def lastAnswer (answer : α → Option β) (items : List α) : Option (Nat × β) :=
  items.zipIdx.reverse.findSome? fun entry => (answer entry.1).map fun b => (entry.2, b)

/-- The item at the index gives the answer, and none before it gives one. -/
structure IsFirst (answer : α → Option β) (items : List α) (index : Nat) (b : β) : Prop where
  answers : ∃ item, items[index]? = some item ∧ answer item = some b
  before : ∀ j < index, ∀ item, items[j]? = some item → answer item = none

/-- The item at the index gives the answer, and none after it gives one. -/
structure IsLast (answer : α → Option β) (items : List α) (index : Nat) (b : β) : Prop where
  answers : ∃ item, items[index]? = some item ∧ answer item = some b
  after : ∀ j, index < j → ∀ item, items[j]? = some item → answer item = none

/-- No item gives an answer. -/
def NoAnswer (answer : α → Option β) (items : List α) : Prop := ∀ item ∈ items, answer item = none

section Found

variable {answer : α → Option β} {items : List α} {index : Nat} {b : β}

/-- A search in some order of the items, each with its index. -/
theorem findSome?_eq_some {entries : List (α × Nat)}
    (h : (entries.findSome? fun entry => (answer entry.1).map fun b => (entry.2, b))
      = some (index, b)) :
    ∃ before item after, entries = before ++ (item, index) :: after ∧ answer item = some b ∧
      ∀ entry ∈ before, answer entry.1 = none := by
  obtain ⟨before, entry, after, heq, hentry, hbefore⟩ := List.findSome?_eq_some_iff.mp h
  obtain ⟨found, hfound, hpair⟩ := Option.map_eq_some_iff.mp hentry
  obtain ⟨rfl, rfl⟩ := Prod.mk.inj hpair
  exact ⟨before, entry.1, after, heq, hfound, fun other hother =>
    Option.map_eq_none_iff.mp (hbefore other hother)⟩

theorem noAnswer_of_findSome? {entries : List (α × Nat)} (hperm : ∀ entry, entry ∈ items.zipIdx →
      entry ∈ entries)
    (h : (entries.findSome? fun entry => (answer entry.1).map fun b => (entry.2, b)) = none) :
    NoAnswer answer items := by
  intro item hitem
  obtain ⟨i, hi⟩ := List.mem_iff_getElem?.mp hitem
  have hmem : (item, i) ∈ entries := hperm _ (List.mk_mem_zipIdx_iff_getElem?.mpr hi)
  exact Option.map_eq_none_iff.mp (List.findSome?_eq_none_iff.mp h _ hmem)

theorem firstAnswer_eq_none (h : firstAnswer answer items = none) : NoAnswer answer items :=
  noAnswer_of_findSome? (fun _ hentry => hentry) h

theorem lastAnswer_eq_none (h : lastAnswer answer items = none) : NoAnswer answer items :=
  noAnswer_of_findSome? (fun _ hentry => List.mem_reverse.mpr hentry) h

/-- The indices of a part of a numbered list are those of its places. -/
theorem mem_of_zipIdx_eq {before after : List (α × Nat)} {entry other : α × Nat}
    (h : items.zipIdx = before ++ entry :: after) (hother : items[other.2]? = some other.1) :
    (other.2 < entry.2 → other ∈ before) ∧ (entry.2 < other.2 → other ∈ after) := by
  have hindex : ∀ (j : Nat) (found : α × Nat), (before ++ entry :: after)[j]? = some found → found.2 = j := by
    intro j found hfound
    rw [← h, List.getElem?_zipIdx, Option.map_eq_some_iff] at hfound
    obtain ⟨item, -, rfl⟩ := hfound
    exact Nat.zero_add j
  have hentry : entry.2 = before.length :=
    hindex before.length entry (by simp)
  have hplace : (before ++ entry :: after)[other.2]? = some other := by
    rw [← h, List.getElem?_zipIdx, hother, Option.map_some, Nat.zero_add]
  constructor
  · intro hlt
    rw [hentry] at hlt
    rw [List.getElem?_append_left hlt] at hplace
    exact List.mem_of_getElem? hplace
  · intro hlt
    rw [hentry] at hlt
    rw [List.getElem?_append_right (Nat.le_of_lt hlt)] at hplace
    obtain ⟨k, hk⟩ : ∃ k, other.2 - before.length = k + 1 :=
      ⟨other.2 - before.length - 1, by omega⟩
    rw [hk, List.getElem?_cons_succ] at hplace
    exact List.mem_of_getElem? hplace

theorem getElem?_of_zipIdx_eq {before after : List (α × Nat)} {entry : α × Nat}
    (h : items.zipIdx = before ++ entry :: after) : items[entry.2]? = some entry.1 :=
  List.mk_mem_zipIdx_iff_getElem?.mp (by rw [h]; simp)

theorem isFirst_of_firstAnswer (h : firstAnswer answer items = some (index, b)) :
    IsFirst answer items index b := by
  obtain ⟨before, item, after, heq, hitem, hbefore⟩ := findSome?_eq_some h
  refine ⟨⟨item, getElem?_of_zipIdx_eq heq, hitem⟩, fun j hj other hother => ?_⟩
  have hplaces := @mem_of_zipIdx_eq _ _ before after _ (other, j) heq hother
  exact hbefore (other, j) (hplaces.1 hj)

theorem isLast_of_lastAnswer (h : lastAnswer answer items = some (index, b)) :
    IsLast answer items index b := by
  obtain ⟨before, item, after, heq, hitem, hbefore⟩ := findSome?_eq_some h
  have hforward : items.zipIdx = after.reverse ++ (item, index) :: before.reverse := by
    rw [← List.reverse_reverse items.zipIdx, heq, List.reverse_append, List.reverse_cons,
      List.append_assoc]
    rfl
  refine ⟨⟨item, getElem?_of_zipIdx_eq hforward, hitem⟩, fun j hj other hother => ?_⟩
  have hplaces := @mem_of_zipIdx_eq _ _ after.reverse before.reverse _ (other, j) hforward hother
  exact hbefore (other, j) (List.mem_reverse.mp (hplaces.2 hj))

end Found

/-! ### Items that give the same answers -/

section Same

variable {answer : α → Option β} {answer' : α' → Option β} {items : List α} {items' : List α'}

theorem findSome?_congr_forall₂ {entries : List (α × Nat)} {entries' : List (α' × Nat)}
    (h : List.Forall₂ (fun entry entry' => answer entry.1 = answer' entry'.1 ∧ entry.2 = entry'.2)
      entries entries') :
    (entries.findSome? fun entry => (answer entry.1).map fun b => (entry.2, b))
      = entries'.findSome? fun entry => (answer' entry.1).map fun b => (entry.2, b) := by
  induction h with
  | nil => rfl
  | cons hentry _ ih => rw [List.findSome?_cons, List.findSome?_cons, hentry.1, hentry.2, ih]

theorem forall₂_zipIdx (h : List.Forall₂ (fun item item' => answer item = answer' item') items items')
    (n : Nat) :
    List.Forall₂ (fun entry entry' => answer entry.1 = answer' entry'.1 ∧ entry.2 = entry'.2)
      (items.zipIdx n) (items'.zipIdx n) := by
  induction h generalizing n with
  | nil => exact .nil
  | cons hitem _ ih => exact .cons ⟨hitem, rfl⟩ (ih (n + 1))

theorem firstAnswer_congr
    (h : List.Forall₂ (fun item item' => answer item = answer' item') items items') :
    firstAnswer answer items = firstAnswer answer' items' :=
  findSome?_congr_forall₂ (forall₂_zipIdx h 0)

theorem lastAnswer_congr
    (h : List.Forall₂ (fun item item' => answer item = answer' item') items items') :
    lastAnswer answer items = lastAnswer answer' items' :=
  findSome?_congr_forall₂ (List.rel_reverse (forall₂_zipIdx h 0))

end Same

end JdxLinker.Precedence
