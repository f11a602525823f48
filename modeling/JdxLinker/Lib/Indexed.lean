import Mathlib

/-!
# Two lists gone through with an index

A fallible function of the index and the items of two lists, in their order. The first failure ends
it.
-/

namespace JdxLinker.Indexed

universe u

variable {ε α β γ : Type u}

def mapM₂ (f : Nat → α → β → Except ε γ) : Nat → List α → List β → Except ε (List γ)
  | index, a :: as, b :: bs => do
    let c ← f index a b
    let cs ← mapM₂ f (index + 1) as bs
    return c :: cs
  | _, _, _ => return []

section Mapped

variable {f f' : Nat → α → β → Except ε γ} {index : Nat} {as : List α} {bs : List β}

theorem mapM₂_nil_right (as : List α) : mapM₂ f index as [] = .ok [] := by
  cases as <;> rfl

theorem mapM_zipIdx_zip (f : Nat → α → β → Except ε γ) (index : Nat) (as : List α) (bs : List β) :
    ((as.zipIdx index).zip bs).mapM (fun entry => f entry.1.2 entry.1.1 entry.2)
      = mapM₂ f index as bs := by
  induction as generalizing index bs with
  | nil => rfl
  | cons a as ih =>
      cases bs with
      | nil => rfl
      | cons b bs =>
          rw [List.zipIdx_cons, List.zip_cons_cons, List.mapM_cons]
          unfold mapM₂
          rw [ih]

theorem mapM₂_cons (f : Nat → α → β → Except ε γ) (index : Nat) (a : α) (as : List α) (b : β)
    (bs : List β) :
    mapM₂ f index (a :: as) (b :: bs) = (do
      let c ← f index a b
      let cs ← mapM₂ f (index + 1) as bs
      return c :: cs) := rfl

theorem mapM₂_append (f : Nat → α → β → Except ε γ) (index : Nat) (as : List α) (bs bs' : List β) :
    mapM₂ f index as (bs ++ bs') = (do
      let cs ← mapM₂ f index as bs
      let cs' ← mapM₂ f (index + bs.length) (as.drop bs.length) bs'
      return cs ++ cs') := by
  induction bs generalizing index as with
  | nil =>
      rw [mapM₂_nil_right]
      exact (bind_pure (mapM₂ f index as bs')).symm
  | cons b bs ih =>
      cases as with
      | nil => rfl
      | cons a as =>
          have hlength : index + (b :: bs).length = index + 1 + bs.length := by
            rw [List.length_cons]
            omega
          rw [List.cons_append, hlength, List.length_cons, List.drop_succ_cons, mapM₂_cons,
            mapM₂_cons, ih]
          simp only [bind_assoc, pure_bind, List.cons_append]

theorem mapM₂_shift (f : Nat → α → β → Except ε γ) (index shift : Nat) (as : List α)
    (bs : List β) :
    mapM₂ f (index + shift) as bs = mapM₂ (fun index => f (index + shift)) index as bs := by
  induction as generalizing index bs with
  | nil => rfl
  | cons a as ih =>
      cases bs with
      | nil => rfl
      | cons b bs =>
          unfold mapM₂
          rw [← ih, Nat.add_right_comm]

/-- Functions that agree at every place have the same result. -/
theorem mapM₂_congr
    (h : ∀ (i : Nat) (a : α) (b : β), as[i]? = some a → bs[i]? = some b →
      f (index + i) a b = f' (index + i) a b) :
    mapM₂ f index as bs = mapM₂ f' index as bs := by
  induction as generalizing index bs with
  | nil => rfl
  | cons a as ih =>
      cases bs with
      | nil => rfl
      | cons b bs =>
          have hrest : mapM₂ f (index + 1) as bs = mapM₂ f' (index + 1) as bs := by
            refine ih fun i a b ha hb => ?_
            rw [Nat.add_assoc, Nat.add_comm 1 i]
            exact h (i + 1) a b ha hb
          have hfirst : f index a b = f' index a b := h 0 a b rfl rfl
          rw [mapM₂_cons, mapM₂_cons, hfirst, hrest]

/-- Functions that fail alike, and somewhere, end with the same failure. -/
theorem mapM₂_eq_error
    (halike : ∀ (i : Nat) (a : α) (b : β) (failure : ε), as[i]? = some a → bs[i]? = some b →
      (f (index + i) a b = .error failure ↔ f' (index + i) a b = .error failure))
    {i : Nat} {a : α} {b : β} {failure : ε} (ha : as[i]? = some a) (hb : bs[i]? = some b)
    (hfails : f (index + i) a b = .error failure) :
    ∃ first, mapM₂ f index as bs = .error first ∧ mapM₂ f' index as bs = .error first := by
  induction as generalizing index bs i with
  | nil => cases ha
  | cons head as ih =>
      cases bs with
      | nil => cases hb
      | cons head' bs =>
          have hhead : ∀ failure, f index head head' = .error failure
              ↔ f' index head head' = .error failure :=
            fun failure => halike 0 head head' failure rfl rfl
          rw [mapM₂_cons, mapM₂_cons]
          cases hresult : f index head head' with
          | error failure =>
              rw [(hhead failure).mp hresult]
              exact ⟨failure, rfl, rfl⟩
          | ok c =>
              cases hresult' : f' index head head' with
              | error failure =>
                  rw [(hhead failure).mpr hresult'] at hresult
                  cases hresult
              | ok c' =>
                  cases i with
                  | zero =>
                      injection ha with ha
                      injection hb with hb
                      subst ha hb
                      rw [Nat.add_zero, hresult] at hfails
                      cases hfails
                  | succ i =>
                      have hsucc : ∀ i, index + (i + 1) = index + 1 + i := fun i => by omega
                      rw [hsucc] at hfails
                      obtain ⟨first, hrest, hrest'⟩ := ih
                        (fun i a b failure ha hb => hsucc i ▸ halike (i + 1) a b failure ha hb)
                        ha hb hfails
                      rw [hrest, hrest']
                      exact ⟨first, rfl, rfl⟩

theorem exists_mapM₂_eq_ok
    (h : ∀ (i : Nat) (a : α) (b : β), as[i]? = some a → bs[i]? = some b →
      ∃ c, f (index + i) a b = .ok c) : ∃ cs, mapM₂ f index as bs = .ok cs := by
  induction as generalizing index bs with
  | nil => exact ⟨[], rfl⟩
  | cons a as ih =>
      cases bs with
      | nil => exact ⟨[], rfl⟩
      | cons b bs =>
          have hsucc : ∀ i, index + (i + 1) = index + 1 + i := fun i => by omega
          obtain ⟨c, hc⟩ := h 0 a b rfl rfl
          obtain ⟨cs, hcs⟩ := ih fun i a b ha hb => hsucc i ▸ h (i + 1) a b ha hb
          rw [Nat.add_zero] at hc
          rw [mapM₂_cons, hc, hcs]
          exact ⟨c :: cs, rfl⟩

/-- Where functions do not fail, equal results are equal at every place. -/
theorem eq_of_mapM₂_eq (h : mapM₂ f index as bs = mapM₂ f' index as bs)
    (hok : ∀ (i : Nat) (a : α) (b : β), as[i]? = some a → bs[i]? = some b →
      (∃ c, f (index + i) a b = .ok c) ∧ ∃ c, f' (index + i) a b = .ok c)
    {i : Nat} {a : α} {b : β} (ha : as[i]? = some a) (hb : bs[i]? = some b) :
    f (index + i) a b = f' (index + i) a b := by
  induction as generalizing index bs i with
  | nil => cases ha
  | cons head as ih =>
      cases bs with
      | nil => cases hb
      | cons head' bs =>
          have hsucc : ∀ i, index + (i + 1) = index + 1 + i := fun i => by omega
          have hoks : ∀ (i : Nat) (a : α) (b : β), as[i]? = some a → bs[i]? = some b →
              (∃ c, f (index + 1 + i) a b = .ok c) ∧ ∃ c, f' (index + 1 + i) a b = .ok c :=
            fun i a b ha hb => hsucc i ▸ hok (i + 1) a b ha hb
          obtain ⟨⟨c, hc⟩, ⟨c', hc'⟩⟩ := hok 0 head head' rfl rfl
          rw [Nat.add_zero] at hc hc'
          obtain ⟨cs, hcs⟩ := exists_mapM₂_eq_ok fun i a b ha hb => (hoks i a b ha hb).1
          obtain ⟨cs', hcs'⟩ := exists_mapM₂_eq_ok fun i a b ha hb => (hoks i a b ha hb).2
          rw [mapM₂_cons, mapM₂_cons, hc, hc', hcs, hcs'] at h
          injection h with h
          injection h with hhead hrest
          cases i with
          | zero =>
              injection ha with ha
              injection hb with hb
              subst ha hb
              rw [Nat.add_zero, hc, hc', hhead]
          | succ i =>
              rw [hsucc]
              refine ih ?_ hoks ha hb
              rw [hcs, hcs', hrest]

end Mapped

/-! ### Without failures -/

/-- A function of the index and the items of two lists. -/
def map₂ (f : Nat → α → β → γ) : Nat → List α → List β → List γ
  | index, a :: as, b :: bs => f index a b :: map₂ f (index + 1) as bs
  | _, _, _ => []

section Map₂

variable {δ : Type u} {f f' : Nat → α → β → γ} {index : Nat} {as : List α} {bs : List β} {c : γ}

theorem map₂_nil_right (f : Nat → α → β → γ) (index : Nat) (as : List α) :
    map₂ f index as [] = [] := by
  cases as <;> rfl

theorem map₂_append (f : Nat → α → β → γ) (index : Nat) (as : List α) (bs bs' : List β) :
    map₂ f index as (bs ++ bs')
      = map₂ f index as bs ++ map₂ f (index + bs.length) (as.drop bs.length) bs' := by
  induction bs generalizing index as with
  | nil => rw [map₂_nil_right]; rfl
  | cons b bs ih =>
      cases as with
      | nil => rfl
      | cons a as =>
          have hlength : index + (b :: bs).length = index + 1 + bs.length := by
            rw [List.length_cons]
            omega
          rw [List.cons_append, hlength, List.length_cons, List.drop_succ_cons]
          exact congrArg (f index a b :: ·) (ih (index + 1) as)

theorem map₂_shift (f : Nat → α → β → γ) (index shift : Nat) (as : List α) (bs : List β) :
    map₂ f (index + shift) as bs = map₂ (fun index => f (index + shift)) index as bs := by
  induction as generalizing index bs with
  | nil => rfl
  | cons a as ih =>
      cases bs with
      | nil => rfl
      | cons b bs =>
          unfold map₂
          rw [← ih, Nat.add_right_comm]

theorem map₂_congr
    (h : ∀ (i : Nat) (a : α) (b : β), as[i]? = some a → bs[i]? = some b →
      f (index + i) a b = f' (index + i) a b) :
    map₂ f index as bs = map₂ f' index as bs := by
  induction as generalizing index bs with
  | nil => rfl
  | cons a as ih =>
      cases bs with
      | nil => rfl
      | cons b bs =>
          have hrest : map₂ f (index + 1) as bs = map₂ f' (index + 1) as bs := by
            refine ih fun i a b ha hb => ?_
            rw [Nat.add_assoc, Nat.add_comm 1 i]
            exact h (i + 1) a b ha hb
          have hfirst : f index a b = f' index a b := h 0 a b rfl rfl
          unfold map₂
          rw [hfirst, hrest]

theorem mem_map₂ : c ∈ map₂ f index as bs ↔
    ∃ (i : Nat) (a : α) (b : β), as[i]? = some a ∧ bs[i]? = some b ∧ c = f (index + i) a b := by
  induction as generalizing index bs with
  | nil => simp [map₂]
  | cons a as ih =>
      cases bs with
      | nil => simp [map₂]
      | cons b bs =>
          rw [map₂, List.mem_cons, ih]
          constructor
          · rintro (rfl | ⟨i, a', b', ha, hb, rfl⟩)
            · exact ⟨0, a, b, rfl, rfl, rfl⟩
            · exact ⟨i + 1, a', b', ha, hb, by rw [Nat.add_assoc, Nat.add_comm 1 i]⟩
          · rintro ⟨i, a', b', ha, hb, rfl⟩
            cases i with
            | zero =>
                cases ha
                cases hb
                exact .inl rfl
            | succ i => exact .inr ⟨i, a', b', ha, hb, by rw [Nat.add_assoc, Nat.add_comm 1 i]⟩

theorem filterMap_map₂ {g : γ → Option δ} {h : Nat → α → β → δ}
    (hg : ∀ index a b, g (f index a b) = some (h index a b)) :
    (map₂ f index as bs).filterMap g = map₂ h index as bs := by
  induction as generalizing index bs with
  | nil => rfl
  | cons a as ih =>
      cases bs with
      | nil => rfl
      | cons b bs =>
          unfold map₂
          rw [List.filterMap_cons_some (hg index a b), ih]

theorem map₂_index (h : Nat → γ) (index : Nat) (as : List α) (bs : List β)
    (hlength : as.length = bs.length) :
    map₂ (fun index _ _ => h index) index as bs = (List.range' index as.length).map h := by
  induction as generalizing index bs with
  | nil => rfl
  | cons a as ih =>
      cases bs with
      | nil => cases hlength
      | cons b bs =>
          unfold map₂
          rw [ih (index + 1) bs (Nat.succ.inj hlength), List.length_cons, List.range'_succ,
            List.map_cons]

theorem map₂_right (index : Nat) (as : List α) (bs : List β) :
    map₂ (fun _ _ b => b) index as bs = bs.take as.length := by
  induction as generalizing index bs with
  | nil => rw [List.length_nil, List.take_zero]; rfl
  | cons a as ih =>
      cases bs with
      | nil => rfl
      | cons b bs =>
          unfold map₂
          rw [ih, List.length_cons, List.take_succ_cons]

end Map₂

end JdxLinker.Indexed
