import JdxLinker.Lib.Placement

/-!
# Filling regions with items

Items go one after another to the ends of the regions that they belong to. An item may need the end of
its region rounded up first. Where no item needs that, the regions grow by the widths of their items,
and nowhere else.
-/

namespace JdxLinker.Filling

open Placement

variable {α κ : Type} [DecidableEq κ] (key : α → κ) (width : α → Nat) (round : α → Nat → Nat)

/-- The ends of the regions with one more item. -/
def put (ends : κ → Nat) (item : α) : κ → Nat :=
  Function.update ends (key item) (round item (ends (key item)) + width item)

/-- The ends of the regions after the items. -/
def fill (ends : κ → Nat) (items : List α) : κ → Nat := items.foldl (put key width round) ends

/-- Where the items are. -/
def addresses : (κ → Nat) → List α → List Nat
  | _, [] => []
  | ends, item :: items =>
      round item (ends (key item)) :: addresses (put key width round ends item) items

/-- The widths of the items of a region. -/
def extentIn (k : κ) (items : List α) : Nat :=
  extent width (items.filter fun item => key item = k)

/-- The item is where the ones before it end. -/
def Fits (ends : κ → Nat) (before : List α) (item : α) : Prop :=
  round item (ends (key item) + extentIn key width (key item) before) =
    ends (key item) + extentIn key width (key item) before

def AllFit (ends : κ → Nat) (items : List α) : Prop :=
  ∀ before item after, items = before ++ item :: after → Fits key width round ends before item

theorem extentIn_cons (k : κ) (item : α) (items : List α) : extentIn key width k (item :: items) =
    (if key item = k then width item else 0) + extentIn key width k items := by
  rw [extentIn, List.filter_cons]
  by_cases h : key item = k
  · rw [if_pos h, if_pos (decide_eq_true h), extent_cons, extentIn]
  · rw [if_neg h, if_neg (fun h' => h (of_decide_eq_true h')), Nat.zero_add, extentIn]

theorem put_apply (ends : κ → Nat) (item : α) (k : κ) : put key width round ends item k =
    if key item = k then round item (ends k) + width item else ends k := by
  rw [put, Function.update_apply]
  by_cases h : key item = k
  · rw [if_pos h.symm, if_pos h, h]
  · rw [if_neg (fun h' => h h'.symm), if_neg h]

/-- An item that fits ends where the widths say. -/
theorem put_of_fits {ends : κ → Nat} {item : α}
    (h : round item (ends (key item)) = ends (key item)) (k : κ) :
    put key width round ends item k = ends k + if key item = k then width item else 0 := by
  rw [put_apply]
  by_cases hk : key item = k
  · subst hk
    rw [if_pos rfl, if_pos rfl, h]
  · rw [if_neg hk, if_neg hk, Nat.add_zero]

theorem allFit_cons {ends : κ → Nat} {item : α} {items : List α} :
    AllFit key width round ends (item :: items) ↔
      round item (ends (key item)) = ends (key item) ∧
        AllFit key width round (put key width round ends item) items := by
  have hshift : ∀ (h : round item (ends (key item)) = ends (key item)) (before : List α) (next : α),
      Fits key width round (put key width round ends item) before next ↔
        Fits key width round ends (item :: before) next := by
    intro h before next
    rw [Fits, Fits, put_of_fits key width round h, extentIn_cons, Nat.add_assoc]
  constructor
  · intro h
    have hfirst : round item (ends (key item)) = ends (key item) := h [] item items rfl
    refine ⟨hfirst, fun before next after heq => ?_⟩
    rw [hshift hfirst]
    exact h (item :: before) next after (by rw [heq, List.cons_append])
  · intro h
    obtain ⟨hfirst, hrest⟩ := h
    intro before next after heq
    cases before with
    | nil =>
        obtain ⟨rfl, -⟩ := List.cons.inj heq
        exact hfirst
    | cons first before =>
        obtain ⟨rfl, htail⟩ := List.cons.inj heq
        rw [← hshift hfirst]
        exact hrest before next after htail

variable {key width round}

/-- A region does not end before the widths of its items say. -/
theorem le_fill (hround : ∀ item offset, offset ≤ round item offset) (ends : κ → Nat)
    (items : List α) (k : κ) :
    ends k + extentIn key width k items ≤ fill key width round ends items k := by
  induction items generalizing ends with
  | nil => exact le_rfl
  | cons item items ih =>
      have hput := put_apply key width round ends item k
      have hle := ih (put key width round ends item)
      have hitem := hround item (ends k)
      rw [extentIn_cons]
      rw [hput] at hle
      show _ ≤ fill key width round (put key width round ends item) items k
      split at hle <;> rename_i hk
      · rw [if_pos hk]
        omega
      · rw [if_neg hk]
        omega

/-- The regions end where the widths say if and only if no item needs rounding. -/
theorem fill_eq_iff (hround : ∀ item offset, offset ≤ round item offset) (ends : κ → Nat)
    (items : List α) :
    (∀ k, fill key width round ends items k = ends k + extentIn key width k items) ↔
      AllFit key width round ends items := by
  induction items generalizing ends with
  | nil =>
      refine ⟨fun _ before item after heq => ?_, fun _ k => rfl⟩
      exact absurd heq (by simp)
  | cons item items ih =>
      rw [allFit_cons, ← ih]
      constructor
      · intro h
        have hfirst : round item (ends (key item)) = ends (key item) := by
          have hend := h (key item)
          have hle : _ ≤ fill key width round (put key width round ends item) items (key item) :=
            le_fill hround (put key width round ends item) items (key item)
          rw [put_apply, if_pos rfl] at hle
          rw [extentIn_cons, if_pos rfl] at hend
          change fill key width round (put key width round ends item) items (key item) = _ at hend
          have hitem := hround item (ends (key item))
          omega
        refine ⟨hfirst, fun k => ?_⟩
        rw [put_of_fits key width round hfirst, Nat.add_assoc, ← extentIn_cons]
        exact h k
      · intro h k
        obtain ⟨hfirst, hrest⟩ := h
        have hend := hrest k
        rw [put_of_fits key width round hfirst, Nat.add_assoc, ← extentIn_cons] at hend
        exact hend

/-- Items that fit are where the widths before them say. -/
theorem addresses_getElem? {ends : κ → Nat} {items : List α} (h : AllFit key width round ends items)
    {before after : List α} {item : α} (heq : items = before ++ item :: after) :
    (addresses key width round ends items)[before.length]? =
      some (ends (key item) + extentIn key width (key item) before) := by
  induction items generalizing ends before with
  | nil => exact absurd heq (by simp)
  | cons first items ih =>
      obtain ⟨hfirst, hrest⟩ := (allFit_cons key width round).mp h
      cases before with
      | nil =>
          obtain ⟨rfl, -⟩ := List.cons.inj heq
          exact congrArg some hfirst
      | cons first' before =>
          obtain ⟨rfl, htail⟩ := List.cons.inj heq
          have hget := ih hrest htail
          rw [put_of_fits key width round hfirst, Nat.add_assoc, ← extentIn_cons] at hget
          exact hget

end JdxLinker.Filling
