import Mathlib.Data.Multiset.Bind
import Mathlib.Tactic.Abel
import JdxLinker.Lib.TaskSystem

/-!
# Work that activates more work

The steps of some work ask for items, and each item that may be activated is so at most once, which
adds its work. Whatever the order of the steps, the items that are active at the end are those that
can be reached from the first steps, and the steps that were taken are the first ones and those of
the active items, each once.
-/

namespace JdxLinker.Activation

variable {φ α : Type}

/-- What a step asks for, which items may be activated, and the work of an item, as sequences of
steps that can be taken side by side. -/
structure Rules (φ α : Type) where
  request : α → Option φ
  mayActivate : φ → Bool
  work : φ → List (List α)

/-- An item is asked for by a first step, or by the work of an item that is reached. -/
inductive Reached (rules : Rules φ α) (roots : List (List α)) : φ → Prop
  | root {a : α} {f : φ} (ha : a ∈ roots.flatten) (hrequest : rules.request a = some f)
      (hmay : rules.mayActivate f = true) : Reached rules roots f
  | step {g f : φ} {a : α} (hg : Reached rules roots g) (ha : a ∈ (rules.work g).flatten)
      (hrequest : rules.request a = some f) (hmay : rules.mayActivate f = true) :
      Reached rules roots f

/-- The steps that sequences consist of. -/
def outstanding (tasks : Multiset (List α)) : Multiset α := tasks.bind fun steps => (steps : Multiset α)

@[simp] theorem outstanding_zero : outstanding (0 : Multiset (List α)) = 0 := Multiset.zero_bind _

@[simp] theorem outstanding_cons (steps : List α) (tasks : Multiset (List α)) :
    outstanding (steps ::ₘ tasks) = (steps : Multiset α) + outstanding tasks := Multiset.cons_bind _ _ _

@[simp] theorem outstanding_add (tasks tasks' : Multiset (List α)) :
    outstanding (tasks + tasks') = outstanding tasks + outstanding tasks' := Multiset.add_bind _ _ _

@[simp] theorem outstanding_coe (tasks : List (List α)) :
    outstanding (tasks : Multiset (List α)) = (tasks.flatten : Multiset α) := by
  induction tasks with
  | nil => rfl
  | cons steps tasks ih =>
      rw [← Multiset.cons_coe, outstanding_cons, ih, List.flatten_cons, Multiset.coe_add]

variable (rules : Rules φ α) (roots : List (List α))

/-- The steps of all items that are active. -/
def workOf (active : List φ) : Multiset α := (active.flatMap fun f => (rules.work f).flatten : List α)

/-- The item that a step activates. -/
def activated [DecidableEq φ] (a : α) (active : List φ) : Option φ :=
  (rules.request a).filter fun f => rules.mayActivate f && decide (f ∉ active)

def act [DecidableEq φ] : List α → List φ → Effect (List φ) (List α) α
  | [], active => ⟨active, [], []⟩
  | a :: steps, active =>
    match activated rules a active with
    | some f => ⟨active ++ [f], steps :: rules.work f, [a]⟩
    | none => ⟨active, [steps], [a]⟩

/-- What holds in the course of every run. -/
structure Sound (trace : List α) (c : Config (List φ) (List α)) : Prop where
  nodup : c.shared.Nodup
  mayActivate : ∀ f ∈ c.shared, rules.mayActivate f = true
  reached : ∀ f ∈ c.shared, Reached rules roots f
  steps : (trace : Multiset α) + outstanding c.tasks
    = (roots.flatten : Multiset α) + workOf rules c.shared
  answered : ∀ a ∈ trace, ∀ f, rules.request a = some f → rules.mayActivate f = true → f ∈ c.shared

variable {rules roots} {a : α} {f : φ} {active : List φ} {trace : List α}
  {c : Config (List φ) (List α)}

theorem activated_eq_some [DecidableEq φ] : activated rules a active = some f ↔
    rules.request a = some f ∧ rules.mayActivate f = true ∧ f ∉ active := by
  simp [activated, Option.filter_eq_some_iff]

theorem mem_of_activated_eq_none [DecidableEq φ] (h : activated rules a active = none)
    (hrequest : rules.request a = some f) (hmay : rules.mayActivate f = true) : f ∈ active := by
  by_contra hnot
  rw [activated_eq_some.mpr ⟨hrequest, hmay, hnot⟩] at h
  cases h

theorem workOf_append (active active' : List φ) :
    workOf rules (active ++ active') = workOf rules active + workOf rules active' := by
  unfold workOf
  rw [List.flatMap_append, Multiset.coe_add]

theorem mem_workOf : a ∈ workOf rules active ↔ ∃ g ∈ active, a ∈ (rules.work g).flatten := by
  unfold workOf
  rw [Multiset.mem_coe, List.mem_flatMap]

theorem sound_init : Sound rules roots [] ⟨[], (roots : Multiset (List α))⟩ where
  nodup := List.nodup_nil
  mayActivate := by simp
  reached := by simp
  steps := by simp [workOf]
  answered := by simp

/-- What is asked for in the course of a run can be reached. -/
theorem Sound.reached_of_request (h : Sound rules roots trace c) (ha : a ∈ outstanding c.tasks)
    (hrequest : rules.request a = some f) (hmay : rules.mayActivate f = true) :
    Reached rules roots f := by
  have hmem : a ∈ (roots.flatten : Multiset α) + workOf rules c.shared := by
    rw [← h.steps]
    exact Multiset.mem_add.mpr (.inr ha)
  rcases Multiset.mem_add.mp hmem with hroot | hwork
  · exact .root hroot hrequest hmay
  · obtain ⟨g, hg, hstep⟩ := mem_workOf.mp hwork
    exact .step (h.reached g hg) hstep hrequest hmay

theorem Sound.step [DecidableEq φ] {t : List α} {ts : Multiset (List α)}
    (h : Sound rules roots trace ⟨active, t ::ₘ ts⟩) :
    Sound rules roots (trace ++ (act rules t active).events)
      (TaskSystem.exec (act rules) active t ts) := by
  cases t with
  | nil =>
      have hsteps := h.steps
      rw [outstanding_cons] at hsteps
      exact ⟨h.nodup, h.mayActivate, h.reached, by simpa [act, TaskSystem.exec] using hsteps,
        by simpa [act, TaskSystem.exec] using h.answered⟩
  | cons a steps =>
      have hsteps := h.steps
      rw [outstanding_cons, ← Multiset.cons_coe] at hsteps
      have hmem : a ∈ outstanding ((a :: steps) ::ₘ ts) := by simp
      cases hactivated : activated rules a active with
      | none =>
          simp only [act, hactivated, TaskSystem.exec]
          refine ⟨h.nodup, h.mayActivate, h.reached, ?_, ?_⟩
          · rw [← hsteps, ← Multiset.coe_add, outstanding_add, outstanding_coe, List.flatten_singleton,
              Multiset.coe_singleton, add_assoc, ← Multiset.singleton_add a, add_assoc]
          · intro b hb f hrequest hmay
            rcases List.mem_append.mp hb with hb | hb
            · exact h.answered b hb f hrequest hmay
            · obtain rfl := List.mem_singleton.mp hb
              exact mem_of_activated_eq_none hactivated hrequest hmay
      | some g =>
          obtain ⟨hrequest, hmay, hnot⟩ := activated_eq_some.mp hactivated
          simp only [act, hactivated, TaskSystem.exec]
          refine ⟨?_, ?_, ?_, ?_, ?_⟩
          · exact List.nodup_append.mpr ⟨h.nodup, List.nodup_singleton g, fun x hx y hy heq => by
              rw [List.mem_singleton.mp hy] at heq
              exact hnot (heq ▸ hx)⟩
          · intro f hf
            rcases List.mem_append.mp hf with hf | hf
            · exact h.mayActivate f hf
            · exact List.mem_singleton.mp hf ▸ hmay
          · intro f hf
            rcases List.mem_append.mp hf with hf | hf
            · exact h.reached f hf
            · exact List.mem_singleton.mp hf ▸ h.reached_of_request hmem hrequest hmay
          · have hwork : workOf rules [g] = ((rules.work g).flatten : Multiset α) := by simp [workOf]
            rw [workOf_append, hwork, ← add_assoc, ← hsteps, ← Multiset.coe_add, outstanding_add,
              outstanding_coe, List.flatten_cons, ← Multiset.coe_add, Multiset.coe_singleton,
              ← Multiset.singleton_add a]
            abel
          · intro b hb f hrequest' hmay'
            rcases List.mem_append.mp hb with hb | hb
            · exact List.mem_append_left _ (h.answered b hb f hrequest' hmay')
            · obtain rfl := List.mem_singleton.mp hb
              rw [hrequest] at hrequest'
              obtain rfl := Option.some.inj hrequest'
              exact List.mem_append_right _ (List.mem_singleton.mpr rfl)

theorem sound_of_run [DecidableEq φ]
    (hrun : TaskSystem.Run (act rules) ⟨[], (roots : Multiset (List α))⟩ trace c) :
    Sound rules roots trace c :=
  hrun.invariant sound_init fun _ _ _ _ h => h.step

/-- At the end all steps have been taken. -/
theorem Sound.trace_eq (h : Sound rules roots trace ⟨active, 0⟩) :
    (trace : Multiset α) = (roots.flatten : Multiset α) + workOf rules active := by
  have hsteps := h.steps
  rwa [outstanding_zero, add_zero] at hsteps

/-- At the end the active items are those that are reached. -/
theorem Sound.mem_iff_reached (h : Sound rules roots trace ⟨active, 0⟩) :
    f ∈ active ↔ Reached rules roots f := by
  have htaken : ∀ a, a ∈ (roots.flatten : Multiset α) + workOf rules active → a ∈ trace := by
    intro a ha
    rwa [← h.trace_eq, Multiset.mem_coe] at ha
  refine ⟨h.reached f, fun hreached => ?_⟩
  induction hreached with
  | root ha hrequest hmay =>
      exact h.answered _ (htaken _ (Multiset.mem_add.mpr (.inl ha))) _ hrequest hmay
  | step hg ha hrequest hmay ih =>
      have hwork := mem_workOf.mpr ⟨_, ih, ha⟩
      exact h.answered _ (htaken _ (Multiset.mem_add.mpr (.inr hwork))) _ hrequest hmay

end JdxLinker.Activation
