import Mathlib.Algebra.BigOperators.Group.List.Basic
import Mathlib.Algebra.BigOperators.Group.Multiset.Basic
import Mathlib.Algebra.Order.BigOperators.Group.List
import Mathlib.Algebra.Order.Ring.Nat

/-!
# Sums over tasks and slots

A conserved quantity of a task pool is the total of what the live tasks contribute and what the
slots of the shared state contribute. Replacing one slot exchanges its contribution and nothing
else.
-/

namespace JdxLinker.Sums

variable {α A : Type*}

/-- What the tasks contribute. -/
def taskSum [AddCommMonoid A] (f : α → A) (tasks : Multiset α) : A := (tasks.map f).sum

/-- What the slots contribute. -/
def slotSum [AddCommMonoid A] (f : α → A) (slots : List α) : A := (slots.map f).sum

section TaskSum

variable [AddCommMonoid A] (f : α → A)

@[simp] theorem taskSum_zero : taskSum f 0 = 0 := rfl

@[simp] theorem taskSum_cons (t : α) (ts : Multiset α) :
    taskSum f (t ::ₘ ts) = f t + taskSum f ts := by
  rw [taskSum, Multiset.map_cons, Multiset.sum_cons, taskSum]

@[simp] theorem taskSum_singleton (t : α) : taskSum f {t} = f t := by
  rw [taskSum, Multiset.map_singleton, Multiset.sum_singleton]

@[simp] theorem taskSum_add (ts ts' : Multiset α) :
    taskSum f (ts + ts') = taskSum f ts + taskSum f ts' := by
  rw [taskSum, Multiset.map_add, Multiset.sum_add, taskSum, taskSum]

@[simp] theorem taskSum_coe_nil : taskSum f (([] : List α) : Multiset α) = 0 := rfl

@[simp] theorem taskSum_coe_cons (t : α) (l : List α) :
    taskSum f ((t :: l : List α) : Multiset α) = f t + taskSum f (l : Multiset α) :=
  taskSum_cons f t l

end TaskSum

/-- A queue with one more element. -/
theorem coe_concat (l : List α) (x : α) :
    ((l ++ [x] : List α) : Multiset α) = (l : Multiset α) + {x} := by
  rw [← Multiset.coe_add, Multiset.coe_singleton]

/-- Replacing a slot exchanges its contribution. -/
theorem slotSum_set [AddCommMonoid A] (f : α → A) {slots : List α} {i : Nat} {x : α}
    (h : slots[i]? = some x) (y : α) :
    slotSum f (slots.set i y) + f x = slotSum f slots + f y := by
  simp only [slotSum]
  induction slots generalizing i with
  | nil => simp at h
  | cons slot slots ih =>
      cases i with
      | zero =>
          obtain rfl : slot = x := by simpa using h
          simp only [List.set_cons_zero, List.map_cons, List.sum_cons]
          rw [add_right_comm, add_comm (f y), add_right_comm, add_comm (f slot)]
      | succ i =>
          have h' : slots[i]? = some x := by simpa using h
          simp only [List.set_cons_succ, List.map_cons, List.sum_cons]
          rw [add_assoc, ih h', add_assoc]

/-- A slot contributes no more than the whole array. -/
theorem le_slotSum [AddCommMonoid A] [PartialOrder A] [IsOrderedAddMonoid A]
    [CanonicallyOrderedAdd A] (f : α → A) {slots : List α} {i : Nat} {x : α}
    (h : slots[i]? = some x) : f x ≤ slotSum f slots :=
  List.single_le_sum (fun _ _ => zero_le) _
    (List.mem_map_of_mem (List.mem_of_getElem? h))

theorem mem_slotSum {f : α → Multiset A} {slots : List α} {x : A} (h : x ∈ slotSum f slots) :
    ∃ slot ∈ slots, x ∈ f slot := by
  simp only [slotSum] at h
  induction slots with
  | nil => simp at h
  | cons slot slots ih =>
      rw [List.map_cons, List.sum_cons, Multiset.mem_add] at h
      rcases h with h | h
      · exact ⟨slot, List.mem_cons_self, h⟩
      · obtain ⟨slot', hslot', hx⟩ := ih h
        exact ⟨slot', List.mem_cons_of_mem _ hslot', hx⟩

theorem slotSum_eq_zero {f : α → Nat} {slots : List α} (h : ∀ slot ∈ slots, f slot = 0) :
    slotSum f slots = 0 := by
  simp only [slotSum]
  exact List.sum_eq_zero fun x hx => by
    obtain ⟨slot, hslot, rfl⟩ := List.mem_map.mp hx
    exact h slot hslot

/-- Where the contribution of one slot is lost and the others do not grow, the total is smaller. -/
theorem slotSum_add_le {f g : α → Nat} {slots : List α} {x : α} {w : Nat} (hx : x ∈ slots)
    (hle : ∀ slot ∈ slots, f slot ≤ g slot) (hlost : f x + w ≤ g x) :
    slotSum f slots + w ≤ slotSum g slots := by
  simp only [slotSum]
  induction slots with
  | nil => cases hx
  | cons slot slots ih =>
      rw [List.map_cons, List.map_cons, List.sum_cons, List.sum_cons]
      have hrest : (slots.map f).sum ≤ (slots.map g).sum :=
        List.sum_le_sum fun slot hslot => hle slot (List.mem_cons_of_mem _ hslot)
      rcases List.mem_cons.mp hx with rfl | hx
      · omega
      · have hslot := hle slot List.mem_cons_self
        have hsmaller := ih hx fun slot hslot => hle slot (List.mem_cons_of_mem _ hslot)
        omega

theorem taskSum_eq_zero [AddCommMonoid A] {f : α → A} {ts : Multiset α} (h : ∀ t ∈ ts, f t = 0) :
    taskSum f ts = 0 := by
  simp only [taskSum]
  exact Multiset.sum_eq_zero fun x hx => by
    obtain ⟨t, ht, rfl⟩ := Multiset.mem_map.mp hx
    exact h t ht

theorem le_taskSum (f : α → Nat) {t : α} {ts : Multiset α} (h : t ∈ ts) : f t ≤ taskSum f ts := by
  obtain ⟨rest, rfl⟩ := Multiset.exists_cons_of_mem h
  rw [taskSum_cons]
  exact Nat.le_add_right _ _

/-- A pointwise bound bounds the totals. -/
theorem taskSum_le_taskSum {f g : α → Nat} (h : ∀ t, f t ≤ g t) (ts : Multiset α) :
    taskSum f ts ≤ taskSum g ts := by
  induction ts using Multiset.induction_on with
  | empty => exact Nat.le_refl _
  | cons t ts ih =>
      rw [taskSum_cons, taskSum_cons]
      exact Nat.add_le_add (h t) ih

end JdxLinker.Sums
