import Mathlib

/-!
# Items placed one after the other

The offset of an item is the extent of the items before it. Any function that places the items of a
list at running offsets is described by where they occur in the list.
-/

namespace JdxLinker.Placement

variable {α β κ : Type}

/-- The space that items of some widths take up. -/
def extent (width : α → Nat) (items : List α) : Nat := (items.map width).sum

section Extent

variable (width : α → Nat) (item : α) (items items' : List α)

@[simp] theorem extent_nil : extent width [] = 0 := rfl

@[simp] theorem extent_cons : extent width (item :: items) = width item + extent width items := rfl

@[simp] theorem extent_append :
    extent width (items ++ items') = extent width items + extent width items' := by
  unfold extent
  rw [List.map_append, List.sum_append]

theorem extent_replicate (count : Nat) : extent width (List.replicate count item) = count * width item := by
  unfold extent
  rw [List.map_replicate, List.sum_replicate, smul_eq_mul]

theorem extent_mono {width width' : α → Nat} (h : ∀ item, width item ≤ width' item)
    (items : List α) : extent width items ≤ extent width' items :=
  List.sum_le_sum fun item _ => h item

theorem extent_eq_zero {width : α → Nat} {items : List α} (h : ∀ item ∈ items, width item = 0) :
    extent width items = 0 := by
  refine List.sum_eq_zero fun w hw => ?_
  obtain ⟨item, hitem, rfl⟩ := List.mem_map.mp hw
  exact h item hitem

end Extent

/-- What is placed, by a function that goes through the items with the offset. -/
theorem mem_place_iff (place : Nat → List α → List β) (at' : Nat → α → β) (width : α → Nat)
    (hnil : ∀ offset, place offset [] = [])
    (hcons : ∀ offset item items,
      place offset (item :: items) = at' offset item :: place (offset + width item) items)
    {offset : Nat} {items : List α} {placed : β} :
    placed ∈ place offset items ↔ ∃ before item after, items = before ++ item :: after ∧
      placed = at' (offset + extent width before) item := by
  induction items generalizing offset with
  | nil => simp [hnil]
  | cons first items ih =>
      rw [hcons, List.mem_cons, ih]
      constructor
      · rintro (rfl | ⟨before, item, after, rfl, rfl⟩)
        · exact ⟨[], first, items, rfl, rfl⟩
        · refine ⟨first :: before, item, after, rfl, ?_⟩
          rw [extent_cons, Nat.add_assoc]
      · rintro ⟨before, item, after, hitems, rfl⟩
        cases before with
        | nil =>
            injection hitems with hfirst
            exact .inl (by rw [hfirst]; rfl)
        | cons head before =>
            injection hitems with hfirst hitems
            refine .inr ⟨before, item, after, hitems, ?_⟩
            rw [hfirst, extent_cons, Nat.add_assoc]

/-- Two places in one list. -/
theorem places_cases {before before' after after' : List α} {item item' : α}
    (h : before ++ item :: after = before' ++ item' :: after') :
    (before = before' ∧ item = item') ∨ (∃ between, before' = before ++ item :: between) ∨
      ∃ between, before = before' ++ item' :: between := by
  rcases List.append_eq_append_iff.mp h with ⟨between, hbefore, hcons⟩ | ⟨between, hbefore, hcons⟩
  · cases between with
    | nil =>
        injection hcons with hhead
        exact .inl ⟨by rw [hbefore, List.append_nil], hhead⟩
    | cons head between =>
        injection hcons with hhead
        exact .inr (.inl ⟨between, by rw [hbefore, hhead]⟩)
  · cases between with
    | nil =>
        injection hcons with hhead
        exact .inl ⟨by rw [hbefore, List.append_nil], hhead.symm⟩
    | cons head between =>
        injection hcons with hhead
        exact .inr (.inr ⟨between, by rw [hbefore, hhead]⟩)

/-- Where keys do not repeat, an item is found at one place only. -/
theorem place_eq {key : α → κ} {items before before' after after' : List α} {item item' : α}
    (hnodup : (items.map key).Nodup) (h : items = before ++ item :: after)
    (h' : items = before' ++ item' :: after') (hkey : key item = key item') :
    before = before' ∧ item = item' := by
  rcases places_cases (h.symm.trans h') with heq | ⟨between, hbetween⟩ | ⟨between, hbetween⟩
  · exact heq
  · rw [h', hbetween, List.map_append, List.map_append, List.map_cons] at hnodup
    have hdistinct := (List.nodup_append.mp hnodup).2.2 (key item')
      (by rw [← hkey]; exact List.mem_append_right _ List.mem_cons_self) (key item') List.mem_cons_self
    exact absurd rfl hdistinct
  · rw [h, hbetween, List.map_append, List.map_append, List.map_cons] at hnodup
    have hdistinct := (List.nodup_append.mp hnodup).2.2 (key item)
      (by rw [hkey]; exact List.mem_append_right _ List.mem_cons_self) (key item) List.mem_cons_self
    exact absurd rfl hdistinct

end JdxLinker.Placement

/-!
## Regions one above the other

Regions that come in order of their addresses, with gaps between them but no overlap, from a lowest
address to a highest one.
-/

namespace JdxLinker.Stacked

variable {α : Type} (start size : α → Nat)

/-- The regions lie between the two addresses, each above the one before it. -/
def Within (low : Nat) : List α → Nat → Prop
  | [], high => low ≤ high
  | a :: rest, high => low ≤ start a ∧ Within (start a + size a) rest high

variable {start size} {low mid high : Nat} {as bs : List α}

theorem Within.le (h : Within start size low as high) : low ≤ high := by
  induction as generalizing low with
  | nil => exact h
  | cons a as ih => exact Nat.le_trans h.1 (Nat.le_trans (Nat.le_add_right _ _) (ih h.2))

theorem Within.weaken (h : Within start size mid as high) (hle : low ≤ mid) :
    Within start size low as high := by
  cases as with
  | nil => exact Nat.le_trans hle h
  | cons a as => exact ⟨Nat.le_trans hle h.1, h.2⟩

theorem Within.append (h : Within start size low as mid) (h' : Within start size mid bs high) :
    Within start size low (as ++ bs) high := by
  induction as generalizing low with
  | nil => exact h'.weaken h
  | cons a as ih => exact ⟨h.1, ih h.2⟩

theorem Within.of_mem (h : Within start size low as high) {a : α} (ha : a ∈ as) :
    low ≤ start a ∧ start a + size a ≤ high := by
  induction as generalizing low with
  | nil => cases ha
  | cons b as ih =>
      rcases List.mem_cons.mp ha with rfl | ha
      · exact ⟨h.1, h.2.le⟩
      · obtain ⟨hlow, hhigh⟩ := ih h.2 ha
        exact ⟨Nat.le_trans h.1 (Nat.le_trans (Nat.le_add_right _ _) hlow), hhigh⟩

/-- Every region ends before those after it start. -/
theorem Within.pairwise (h : Within start size low as high) :
    as.Pairwise fun a b => start a + size a ≤ start b := by
  induction as generalizing low with
  | nil => exact List.Pairwise.nil
  | cons a as ih =>
      rw [List.pairwise_cons]
      exact ⟨fun b hb => (h.2.of_mem hb).1, ih h.2⟩

end JdxLinker.Stacked
