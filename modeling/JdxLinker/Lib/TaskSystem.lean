import Mathlib.Algebra.BigOperators.Group.Multiset.Basic
import Mathlib.Data.Multiset.AddSub

/-!
# Pools of tasks over a shared state

A program whose threads take tasks from a pool is a shared state and a multiset of live tasks. One
step picks any live task, lets it act once on the shared state and puts back what becomes of it: its
continuation and the tasks it spawned. A run is any sequence of steps, so a statement about all runs
is a statement about all interleavings.
-/

namespace JdxLinker

universe u v w

/-- What one atomic action of a task does. -/
structure Effect (σ : Type u) (τ : Type v) (ε : Type w) where
  shared : σ
  tasks : List τ
  events : List ε

/-- A shared state and the tasks that are alive. -/
@[ext] structure Config (σ : Type u) (τ : Type v) where
  shared : σ
  tasks : Multiset τ

namespace TaskSystem

variable {σ : Type u} {τ : Type v} {ε : Type w} (act : τ → σ → Effect σ τ ε)

/-- The configuration after `t` acted, when `ts` are the other live tasks. -/
def exec (s : σ) (t : τ) (ts : Multiset τ) : Config σ τ :=
  ⟨(act t s).shared, ((act t s).tasks : Multiset τ) + ts⟩

/-- The runs from `c₀`, with the events they emitted. -/
inductive Run (c₀ : Config σ τ) : List ε → Config σ τ → Prop
  | refl : Run c₀ [] c₀
  | step {trace : List ε} {s : σ} {t : τ} {ts : Multiset τ} (run : Run c₀ trace ⟨s, t ::ₘ ts⟩) :
      Run c₀ (trace ++ (act t s).events) (exec act s t ts)

variable {act}

/-- What holds at the start and is kept by every action holds after every run. -/
theorem Run.invariant {c₀ c : Config σ τ} {trace : List ε} (hrun : Run act c₀ trace c)
    {I : List ε → Config σ τ → Prop} (hinit : I [] c₀)
    (hstep : ∀ trace s t ts, I trace ⟨s, t ::ₘ ts⟩ →
      I (trace ++ (act t s).events) (exec act s t ts)) : I trace c := by
  induction hrun with
  | refl => exact hinit
  | step _ ih => exact hstep _ _ _ _ ih

theorem Run.trans {c₀ c c' : Config σ τ} {trace trace' : List ε} (h : Run act c₀ trace c)
    (h' : Run act c trace' c') : Run act c₀ (trace ++ trace') c' := by
  induction h' with
  | refl => simpa using h
  | step _ ih =>
      rw [← List.append_assoc]
      exact .step ih

variable (act) in
/-- The run that takes the tasks in the order in which they were spawned, if it ends in time. -/
def fifo : Nat → σ → List τ → Option (List ε × σ)
  | _, s, [] => some ([], s)
  | 0, _, _ :: _ => none
  | fuel + 1, s, t :: ts =>
      (fifo fuel (act t s).shared (ts ++ (act t s).tasks)).map fun result =>
        ((act t s).events ++ result.1, result.2)

theorem fifo_run {fuel : Nat} {s s' : σ} {ts : List τ} {trace : List ε}
    (h : fifo act fuel s ts = some (trace, s')) : Run act ⟨s, ts⟩ trace ⟨s', 0⟩ := by
  induction fuel generalizing s ts trace with
  | zero =>
      cases ts with
      | nil =>
          cases h
          exact .refl
      | cons t ts => cases h
  | succ fuel ih =>
      cases ts with
      | nil =>
          cases h
          exact .refl
      | cons t ts =>
          obtain ⟨⟨rest, final⟩, hrest, hresult⟩ := Option.map_eq_some_iff.mp h
          obtain ⟨rfl, rfl⟩ := Prod.mk.inj hresult
          have hstart : Run act ⟨s, (t :: ts : List τ)⟩ [] ⟨s, t ::ₘ (ts : Multiset τ)⟩ := .refl
          have hfirst := hstart.step
          rw [exec, add_comm, Multiset.coe_add] at hfirst
          exact hfirst.trans (ih hrest)

theorem exists_run_of_fifo {fuel : Nat} {s : σ} {ts : List τ}
    (h : (fifo act fuel s ts).isSome) : ∃ trace s', Run act ⟨s, ts⟩ trace ⟨s', 0⟩ := by
  obtain ⟨⟨trace, s'⟩, hfifo⟩ := Option.isSome_iff_exists.mp h
  exact ⟨trace, s', fifo_run hfifo⟩

/-- Where every action makes a measure smaller, a run can be finished, and keeps what is kept. -/
theorem exists_finished {I : Config σ τ → Prop} {μ : Config σ τ → Nat}
    (hI : ∀ s t ts, I ⟨s, t ::ₘ ts⟩ → I (exec act s t ts))
    (hμ : ∀ s t ts, I ⟨s, t ::ₘ ts⟩ → μ (exec act s t ts) < μ ⟨s, t ::ₘ ts⟩)
    {c : Config σ τ} (hc : I c) : ∃ trace s', Run act c trace ⟨s', 0⟩ ∧ I ⟨s', 0⟩ := by
  induction hn : μ c using Nat.strong_induction_on generalizing c with
  | _ n ih =>
      obtain ⟨s, tasks⟩ := c
      rcases Multiset.empty_or_exists_mem tasks with rfl | ⟨t, ht⟩
      · exact ⟨[], s, .refl, hc⟩
      · obtain ⟨ts, rfl⟩ := Multiset.exists_cons_of_mem ht
        obtain ⟨trace, s', hrest, hfinal⟩ := ih _ (hn ▸ hμ s t ts hc) (hI s t ts hc) rfl
        have hfirst : Run act ⟨s, t ::ₘ ts⟩ ([] ++ (act t s).events) (exec act s t ts) :=
          Run.step .refl
        exact ⟨_, s', hfirst.trans hrest, hfinal⟩

end TaskSystem

end JdxLinker
