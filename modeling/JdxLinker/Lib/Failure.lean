import Mathlib.Data.List.Forall2

/-!
# Reported errors and panics

A fallible step of a program ends with a value, with an error that is reported to its caller, or
with a panic: a failed unwrap, or a slice index out of range.
-/

namespace JdxLinker

/-- How a step can fail. -/
inductive Failure where
  | error (message : String)
  | panic
  deriving Repr, DecidableEq

def Failure.text : Failure → String
  | .error message => message
  | .panic => "panic"

/-- A step that may fail. -/
abbrev Fallible (α : Type) : Type := Except Failure α

namespace Fallible

variable {α β : Type}

/-- Reports `message` unless the condition holds. -/
def ensure (condition : Prop) [Decidable condition] (message : String) : Fallible Unit :=
  if condition then .ok () else .error (.error message)

/-- Panics unless the condition holds. -/
def assert (condition : Prop) [Decidable condition] : Fallible Unit :=
  if condition then .ok () else .error .panic

/-- Reports `message` where there is no value. -/
def context (value : Option α) (message : String) : Fallible α :=
  match value with
  | some a => .ok a
  | none => .error (.error message)

/-- Panics where there is no value. -/
def unwrap (value : Option α) : Fallible α :=
  match value with
  | some a => .ok a
  | none => .error .panic

/-- A sequence of two steps succeeds through a result of the first. -/
theorem bind_eq_ok {x : Fallible α} {f : α → Fallible β} {b : β} :
    (x >>= f) = .ok b ↔ ∃ a, x = .ok a ∧ f a = .ok b := by
  cases x with
  | error e => simp [bind, Except.bind]
  | ok a => simp [bind, Except.bind]

theorem bind_ok (a : α) (f : α → Fallible β) : (Except.ok a >>= f : Fallible β) = f a := rfl

theorem ensure_eq_ok {condition : Prop} [Decidable condition] {message : String} {u : Unit} :
    ensure condition message = .ok u ↔ condition := by
  unfold ensure
  split <;> simp_all

theorem ensure_pos {condition : Prop} [Decidable condition] (message : String)
    (h : condition) : ensure condition message = .ok () :=
  if_pos h

theorem assert_eq_ok {condition : Prop} [Decidable condition] {u : Unit} :
    assert condition = .ok u ↔ condition := by
  unfold assert
  split <;> simp_all

theorem context_eq_ok {value : Option α} {message : String} {a : α} :
    context value message = .ok a ↔ value = some a := by
  cases value <;> simp [context]

theorem unwrap_eq_ok {value : Option α} {a : α} : unwrap value = .ok a ↔ value = some a := by
  cases value <;> simp [unwrap]

/-! ### Steps that change a state -/

/-- What holds at the start of a loop, and is kept by its steps, holds at its end. It can speak of the
items that were visited. -/
theorem foldlM_invariant {σ : Type} {step : σ → α → Fallible σ} (Holds : List α → σ → Prop)
    {as : List α} {s s' : σ} (h : as.foldlM step s = .ok s') (hstart : Holds [] s)
    (hstep : ∀ visited a s s', Holds visited s → step s a = .ok s' → Holds (visited ++ [a]) s') :
    Holds as s' := by
  suffices hrest : ∀ (visited rest : List α) (s : σ), Holds visited s →
      rest.foldlM step s = .ok s' → Holds (visited ++ rest) s' from hrest [] as s hstart h
  intro visited rest
  induction rest generalizing visited with
  | nil =>
      rintro s hs h
      cases h
      rwa [List.append_nil]
  | cons a rest ih =>
      intro s hs h
      rw [List.foldlM_cons] at h
      obtain ⟨next, hnext, h⟩ := bind_eq_ok.mp h
      have := ih (visited ++ [a]) next (hstep visited a s next hs hnext) h
      rwa [List.append_assoc] at this

/-- A loop that fails, fails in the step of an item, where what the steps before it keep still
holds. -/
theorem foldlM_eq_error {σ : Type} {step : σ → α → Fallible σ} (Holds : List α → σ → Prop)
    {as : List α} {s : σ} {failure : Failure} (h : as.foldlM step s = .error failure)
    (hstart : Holds [] s)
    (hstep : ∀ visited a s s', Holds visited s → step s a = .ok s' → Holds (visited ++ [a]) s') :
    ∃ visited a rest s, as = visited ++ a :: rest ∧ Holds visited s ∧ step s a = .error failure := by
  suffices hrest : ∀ (visited rest : List α) (s : σ), Holds visited s →
      rest.foldlM step s = .error failure → ∃ before a after s,
        visited ++ rest = before ++ a :: after ∧ Holds before s ∧ step s a = .error failure from
    hrest [] as s hstart h
  intro visited rest
  induction rest generalizing visited with
  | nil =>
      rintro s hs h
      cases h
  | cons a rest ih =>
      intro s hs h
      rw [List.foldlM_cons] at h
      cases hnext : step s a with
      | error reason =>
          rw [hnext] at h
          cases h
          exact ⟨visited, a, rest, s, rfl, hs, hnext⟩
      | ok next =>
          rw [hnext, bind_ok] at h
          have hfound := ih (visited ++ [a]) next (hstep visited a s next hs hnext) h
          rwa [List.append_assoc] at hfound

/-- What the steps of all items keep is kept by the loop. -/
theorem foldlM_kept {σ : Type} {step : σ → α → Fallible σ} (P : σ → Prop) {as : List α} {s s' : σ}
    (h : as.foldlM step s = .ok s')
    (hstep : ∀ a ∈ as, ∀ s s', step s a = .ok s' → P s → P s') (hs : P s) : P s' := by
  induction as generalizing s with
  | nil =>
      cases h
      exact hs
  | cons a rest ih =>
      rw [List.foldlM_cons] at h
      obtain ⟨next, hnext, h⟩ := bind_eq_ok.mp h
      have hkeep := hstep a List.mem_cons_self s next hnext hs
      exact ih h (fun b hb => hstep b (List.mem_cons_of_mem a hb)) hkeep

/-- What the step of each item establishes holds at the end, where the steps of later items keep
it. -/
theorem foldlM_establishes {σ : Type} {step : σ → α → Fallible σ} (Holds : α → σ → Prop)
    {as : List α} {s s' : σ} (h : as.foldlM step s = .ok s')
    (hstep : ∀ a ∈ as, ∀ s s', step s a = .ok s' → Holds a s')
    (hkeep : as.Pairwise fun a b => ∀ s s', step s b = .ok s' → Holds a s → Holds a s') :
    ∀ a ∈ as, Holds a s' := by
  induction as generalizing s with
  | nil =>
      intro a ha
      cases ha
  | cons first rest ih =>
      rw [List.foldlM_cons] at h
      obtain ⟨next, hnext, hrest⟩ := bind_eq_ok.mp h
      rw [List.pairwise_cons] at hkeep
      intro a ha
      rcases List.mem_cons.mp ha with rfl | ha
      · exact foldlM_kept (Holds a) hrest hkeep.1 (hstep a List.mem_cons_self s next hnext)
      · exact ih hrest (fun b hb => hstep b (List.mem_cons_of_mem first hb)) hkeep.2 a ha

theorem foldlM_flatMap {σ : Type} {step : σ → β → Fallible σ} (f : α → List β) (as : List α)
    (s : σ) :
    (as.flatMap f).foldlM step s = as.foldlM (fun s a => (f a).foldlM step s) s := by
  induction as generalizing s with
  | nil => rfl
  | cons a rest ih =>
      rw [List.flatMap_cons, List.foldlM_append, List.foldlM_cons]
      exact congrArg _ (funext ih)

/-- A loop succeeds where its steps do, as long as what they need is kept. -/
theorem foldlM_eq_ok {σ : Type} {step : σ → α → Fallible σ} (Holds : List α → σ → Prop)
    {as : List α} {s : σ} (hstart : Holds [] s)
    (hstep : ∀ visited a rest s, as = visited ++ a :: rest → Holds visited s →
      ∃ s', step s a = .ok s' ∧ Holds (visited ++ [a]) s') :
    ∃ s', as.foldlM step s = .ok s' ∧ Holds as s' := by
  suffices hrest : ∀ (visited rest : List α) (s : σ), as = visited ++ rest → Holds visited s →
      ∃ s', rest.foldlM step s = .ok s' ∧ Holds (visited ++ rest) s' from hrest [] as s rfl hstart
  intro visited rest
  induction rest generalizing visited with
  | nil =>
      intro s _ hs
      exact ⟨s, rfl, by rwa [List.append_nil]⟩
  | cons a rest ih =>
      intro s heq hs
      obtain ⟨next, hnext, hs⟩ := hstep visited a rest s heq hs
      obtain ⟨s', hok, hs'⟩ := ih (visited ++ [a]) next (by rw [heq, List.append_assoc]; rfl) hs
      refine ⟨s', ?_, by rwa [List.append_assoc] at hs'⟩
      rw [List.foldlM_cons, hnext, bind_ok, hok]

/-! ### Steps over a list -/

/-- A loop that succeeds relates each item to its result. -/
theorem mapM_eq_ok {f : α → Fallible β} {as : List α} {bs : List β} (h : as.mapM f = .ok bs) :
    List.Forall₂ (fun a b => f a = .ok b) as bs := by
  induction as generalizing bs with
  | nil =>
      rw [List.mapM_nil] at h
      cases h
      exact .nil
  | cons a as ih =>
      rw [List.mapM_cons] at h
      obtain ⟨b, hb, h⟩ := bind_eq_ok.mp h
      obtain ⟨bs', hbs, h⟩ := bind_eq_ok.mp h
      cases h
      exact .cons hb (ih hbs)

/-- A loop of steps that all succeed maps the items to their results. -/
theorem mapM_eq_ok_map {f : α → Fallible β} {g : α → β} {as : List α}
    (h : ∀ a ∈ as, f a = .ok (g a)) : as.mapM f = .ok (as.map g) := by
  induction as with
  | nil => rfl
  | cons a as ih =>
      rw [List.mapM_cons, h a List.mem_cons_self, bind_ok,
        ih fun b hb => h b (List.mem_cons_of_mem _ hb)]
      rfl

/-- What every result keeps of its item, the list of results keeps of the list. -/
theorem mapM_project {γ : Type} {f : α → Fallible β} {as : List α} {bs : List β} {g : β → γ}
    {k : α → γ} (hproject : ∀ a b, f a = .ok b → g b = k a) (h : as.mapM f = .ok bs) :
    bs.map g = as.map k := by
  have hall := mapM_eq_ok h
  clear h
  induction hall with
  | nil => rfl
  | cons hab _ ih => rw [List.map_cons, List.map_cons, hproject _ _ hab, ih]

/-- The result at a position is that of the item there. -/
theorem mapM_getElem? {f : α → Fallible β} {as : List α} {bs : List β} (h : as.mapM f = .ok bs)
    {i : Nat} {a : α} (ha : as[i]? = some a) : ∃ b, bs[i]? = some b ∧ f a = .ok b := by
  have hall := mapM_eq_ok h
  clear h
  induction hall generalizing i with
  | nil => cases ha
  | @cons a' b as bs hab _ ih =>
      cases i with
      | zero =>
          obtain rfl : a' = a := by simpa using ha
          exact ⟨b, rfl, hab⟩
      | succ i => exact ih (by simpa using ha)

/-- Every result comes from an item. -/
theorem mapM_mem {f : α → Fallible β} {as : List α} {bs : List β} (h : as.mapM f = .ok bs)
    {b : β} (hb : b ∈ bs) : ∃ a ∈ as, f a = .ok b := by
  have hall := mapM_eq_ok h
  clear h
  induction hall with
  | nil => cases hb
  | @cons a b' as bs hab _ ih =>
      cases hb with
      | head => exact ⟨a, List.mem_cons_self, hab⟩
      | tail _ hb =>
          obtain ⟨a', ha', h⟩ := ih hb
          exact ⟨a', List.mem_cons_of_mem _ ha', h⟩

/-- A relation between the items of a list carries over to the results. -/
theorem mapM_pairwise {f : α → Fallible β} {as : List α} {bs : List β} {R : α → α → Prop}
    {S : β → β → Prop} (hstep : ∀ a a' b b', f a = .ok b → f a' = .ok b' → R a a' → S b b')
    (h : as.mapM f = .ok bs) (hR : as.Pairwise R) : bs.Pairwise S := by
  induction as generalizing bs with
  | nil =>
      rw [List.mapM_nil] at h
      cases h
      exact .nil
  | cons a as ih =>
      rw [List.mapM_cons] at h
      obtain ⟨b, hb, h⟩ := bind_eq_ok.mp h
      obtain ⟨bs', hbs, h⟩ := bind_eq_ok.mp h
      cases h
      refine List.pairwise_cons.mpr ⟨fun b' hb' => ?_, ih hbs hR.of_cons⟩
      obtain ⟨a', ha', h'⟩ := mapM_mem hbs hb'
      exact hstep a a' b b' hb h' (List.rel_of_pairwise_cons hR ha')

end Fallible

end JdxLinker
