import Mathlib.Data.List.Basic
import Mathlib.Logic.Function.Iterate

/-!
# Wrapping names

Names are looked up in a table. To wrap a name, what its wrapper stands for is put in its place, and
its own entry is kept under another form of the name. This is done for one name after the other, in
the table in which the later names are looked up.

The names are wrapped as if all were replaced at once, wrapping them again changes nothing, and what
was kept can be put back, if and only if the forms of the names do not get in each other's way.
-/

namespace JdxLinker.Overrides

variable {N α : Type}

/-- The two forms of a name: the name of its wrapper, and the one under which its own entry is
kept. Both are longer than the name. -/
structure Forms (N : Type) where
  wrap : N → N
  real : N → N
  size : N → Nat
  size_wrap : ∀ name, size name < size (wrap name)
  size_real : ∀ name, size name < size (real name)
  wrap_ne_real : ∀ name other, wrap name ≠ real other
  real_injective : ∀ name other, real name = real other → name = other

abbrev Table (N α : Type) := N → Option α

/-- Every entry has one name. -/
def OneNameEach (table : Table N α) : Prop :=
  ∀ name other value, table name = some value → table other = some value → name = other

section Definitions

variable [DecidableEq N] (forms : Forms N)

/-- Replaces an entry, if there is something to put in its place. -/
def override (table : Table N α) (name : N) : Option α → Table N α
  | some value => Function.update table name (some value)
  | none => table

def wrapOne (table : Table N α) (name : N) : Table N α :=
  let original := table (forms.real name) <|> table name
  override (override table name (table (forms.wrap name))) (forms.real name) original

def wrapAll (names : List N) (table : Table N α) : Table N α := names.foldl (wrapOne forms) table

def restoreOne (table : Table N α) (name : N) : Table N α :=
  override table name (table (forms.real name))

def restoreAll (names : List N) (table : Table N α) : Table N α :=
  names.foldl (restoreOne forms) table

/-- The names are wrapped at once, for good, and can be restored. -/
structure Correct (names : List N) (table : Table N α) : Prop where
  wrapped : ∀ name ∈ names, ∀ value, table (forms.wrap name) = some value →
    wrapAll forms names table name = some value
  real : ∀ name ∈ names, wrapAll forms names table (forms.real name) = table name
  again : wrapAll forms names (wrapAll forms names table) = wrapAll forms names table
  restored : ∀ name ∈ names, restoreAll forms names (wrapAll forms names table) name = table name

end Definitions

/-- The forms of the names do not get in each other's way. -/
structure Separate (forms : Forms N) (names : List N) (table : Table N α) : Prop where
  real_undefined : ∀ name ∈ names, table (forms.real name) = none
  defined : ∀ name ∈ names, table (forms.wrap name) ≠ none → table name ≠ none
  of_real_mem : ∀ name ∈ names, forms.real name ∈ names → table name = none
  of_wrap_mem : ∀ name ∈ names, forms.wrap name ∈ names →
    table (forms.wrap (forms.wrap name)) = none

/-! ### One name -/

section Steps

variable [DecidableEq N] {forms : Forms N} {table : Table N α} {names : List N} {name other : N}
  {value : α}

theorem override_apply (table : Table N α) (name : N) (replacement : Option α) (other : N) :
    override table name replacement other
      = if other = name then replacement <|> table name else table other := by
  cases replacement with
  | none =>
      by_cases h : other = name
      · subst h
        rw [if_pos rfl]
        rfl
      · rw [if_neg h]
        rfl
  | some value =>
      by_cases h : other = name
      · subst h
        rw [if_pos rfl]
        exact Function.update_self ..
      · rw [if_neg h]
        exact Function.update_of_ne h ..

omit [DecidableEq N] in
theorem real_ne (forms : Forms N) (name : N) : forms.real name ≠ name := by
  intro h
  have hsize := forms.size_real name
  rw [h] at hsize
  exact Nat.lt_irrefl _ hsize

/-- What one step does to every name. -/
theorem wrapOne_apply (table : Table N α) (name other : N) : wrapOne forms table name other
    = if other = forms.real name then table (forms.real name) <|> table name
      else if other = name then table (forms.wrap name) <|> table name
      else table other := by
  unfold wrapOne
  rw [override_apply, override_apply, override_apply, if_neg (real_ne forms name)]
  by_cases h : other = forms.real name
  · rw [if_pos h, if_pos h]
    cases table (forms.real name) <;> cases table name <;> rfl
  · rw [if_neg h, if_neg h]

theorem restoreOne_apply (table : Table N α) (name other : N) : restoreOne forms table name other
    = if other = name then table (forms.real name) <|> table name else table other :=
  override_apply table name _ other

theorem wrapOne_isSome (h : (table other).isSome) : (wrapOne forms table name other).isSome := by
  rw [wrapOne_apply]
  split
  · rename_i heq
    rw [heq] at h
    cases hreal : table (forms.real name) with
    | none =>
        rw [hreal] at h
        cases h
    | some value => rfl
  · split
    · rename_i heq
      rw [heq] at h
      cases table (forms.wrap name) with
      | none => exact h
      | some value => rfl
    · exact h

theorem restoreOne_isSome (h : (table other).isSome) :
    (restoreOne forms table name other).isSome := by
  rw [restoreOne_apply]
  split
  · rename_i heq
    rw [heq] at h
    cases table (forms.real name) with
    | none => exact h
    | some value => rfl
  · exact h

theorem wrapAll_isSome (h : (table other).isSome) : (wrapAll forms names table other).isSome := by
  unfold wrapAll
  induction names generalizing table with
  | nil => exact h
  | cons name names ih => exact ih (wrapOne_isSome h)

theorem restoreAll_isSome (h : (table other).isSome) :
    (restoreAll forms names table other).isSome := by
  unfold restoreAll
  induction names generalizing table with
  | nil => exact h
  | cons name names ih => exact ih (restoreOne_isSome h)

end Steps

/-! ### Names that are kept apart -/

section Sufficient

variable [DecidableEq N] {forms : Forms N} {table current current' : Table N α}
  {names visited visited' : List N} {name : N}

/-- The table after some names have been wrapped. -/
structure Wrapped (forms : Forms N) (table : Table N α) (visited : List N) (current : Table N α) :
    Prop where
  real : ∀ name ∈ visited, current (forms.real name) = table name
  wrapped : ∀ name ∈ visited, current name = (table (forms.wrap name) <|> table name)
  other : ∀ name ∉ visited, (∀ kept ∈ visited, name ≠ forms.real kept) → current name = table name

omit [DecidableEq N] in
theorem wrapped_nil : Wrapped forms table [] table where
  real _ h := by cases h
  wrapped _ h := by cases h
  other _ _ _ := rfl

omit [DecidableEq N] in
theorem Separate.wrap_eq_none (h : Separate forms names table) (hname : name ∈ names)
    (hnone : table name = none) : table (forms.wrap name) = none := by
  by_contra hdefined
  exact h.defined name hname hdefined hnone

/-- A name that is not visited has its entry, also if it is the form of another one. -/
theorem Wrapped.eq_of_not_mem (h : Wrapped forms table visited current)
    (hseparate : Separate forms names table) (hvisited : visited ⊆ names) (hname : name ∈ names)
    (hnot : name ∉ visited) : current name = table name := by
  by_cases hreal : ∃ kept ∈ visited, name = forms.real kept
  · obtain ⟨kept, hkept, rfl⟩ := hreal
    rw [h.real kept hkept, hseparate.real_undefined kept (hvisited hkept)]
    exact hseparate.of_real_mem kept (hvisited hkept) hname
  · exact h.other name hnot fun kept hkept heq => hreal ⟨kept, hkept, heq⟩

/-- The own entry of a name is found, whether or not it has been moved. -/
theorem Wrapped.original (h : Wrapped forms table visited current)
    (hseparate : Separate forms names table) (hvisited : visited ⊆ names) (hname : name ∈ names) :
    (current (forms.real name) <|> current name) = table name := by
  by_cases hmem : name ∈ visited
  · rw [h.real name hmem, h.wrapped name hmem]
    cases hnone : table name with
    | none =>
        rw [hseparate.wrap_eq_none hname hnone]
        rfl
    | some value => rfl
  · rw [h.eq_of_not_mem hseparate hvisited hname hmem]
    have hreal : current (forms.real name) = none := by
      by_cases hrealMem : forms.real name ∈ visited
      · rw [h.wrapped _ hrealMem, hseparate.real_undefined name hname,
          hseparate.wrap_eq_none (hvisited hrealMem) (hseparate.real_undefined name hname)]
        rfl
      · rw [h.other _ hrealMem, hseparate.real_undefined name hname]
        intro kept hkept heq
        exact hmem (forms.real_injective _ _ heq ▸ hkept)
    rw [hreal]
    rfl

/-- The wrapper of a name keeps its entry. -/
theorem Wrapped.wrapper (h : Wrapped forms table visited current)
    (hseparate : Separate forms names table) (hvisited : visited ⊆ names) (hname : name ∈ names) :
    current (forms.wrap name) = table (forms.wrap name) := by
  by_cases hmem : forms.wrap name ∈ visited
  · rw [h.wrapped _ hmem, hseparate.of_wrap_mem name hname (hvisited hmem)]
    rfl
  · exact h.other _ hmem fun kept _ => forms.wrap_ne_real name kept

theorem Wrapped.step (h : Wrapped forms table visited current)
    (hseparate : Separate forms names table) (hvisited : visited ⊆ names) (hname : name ∈ names) :
    Wrapped forms table (visited ++ [name]) (wrapOne forms current name) := by
  have horiginal := h.original hseparate hvisited hname
  have hwrapper := h.wrapper hseparate hvisited hname
  have hall : visited ++ [name] ⊆ names := by
    intro other hother
    rcases List.mem_append.mp hother with hother | hother
    · exact hvisited hother
    · exact List.mem_singleton.mp hother ▸ hname
  -- where a form of one name is another name, there is nothing to find
  have hcollision : ∀ kept ∈ names, forms.real kept ∈ names →
      table kept = none ∧ table (forms.real kept) = none ∧
        table (forms.wrap (forms.real kept)) = none := by
    intro kept hkept hreal
    have hnone := hseparate.real_undefined kept hkept
    exact ⟨hseparate.of_real_mem kept hkept hreal, hnone, hseparate.wrap_eq_none hreal hnone⟩
  refine ⟨fun kept hkept => ?_, fun other hother => ?_, fun other hother hreal => ?_⟩
  · rw [wrapOne_apply]
    split
    · rename_i heq
      rw [horiginal, forms.real_injective _ _ heq]
    · rename_i hne
      have hold : kept ∈ visited := by
        rcases List.mem_append.mp hkept with hkept | hkept
        · exact hkept
        · rw [List.mem_singleton.mp hkept] at hne
          exact absurd rfl hne
      split
      · rename_i heq
        obtain ⟨hnone, -, hwrap⟩ := hcollision kept (hvisited hold) (heq ▸ hname)
        rw [← heq, h.real kept hold, hnone, heq, hwrapper, ← heq, hwrap]
        rfl
      · exact h.real kept hold
  · rw [wrapOne_apply]
    split
    · rename_i heq
      obtain ⟨hnone, hreal, hwrap⟩ := hcollision name hname (heq ▸ hall hother)
      rw [horiginal, heq, hnone, hreal, hwrap]
      rfl
    · split
      · rename_i heq
        subst heq
        rw [hwrapper]
        by_cases hmem : other ∈ visited
        · rw [h.wrapped other hmem]
          cases table (forms.wrap other) <;> rfl
        · rw [h.eq_of_not_mem hseparate hvisited hname hmem]
      · rename_i hne
        apply h.wrapped
        exact (List.mem_append.mp hother).resolve_right fun hmem => hne (List.mem_singleton.mp hmem)
  · have hne : other ≠ name := by
      rintro rfl
      exact hother (by simp)
    rw [wrapOne_apply, if_neg (hreal name (by simp)), if_neg hne]
    exact h.other other (fun hmem => hother (List.mem_append_left _ hmem)) fun kept hkept =>
      hreal kept (List.mem_append_left _ hkept)

theorem Wrapped.foldl (h : Wrapped forms table visited current)
    (hseparate : Separate forms names table) (hvisited : visited ⊆ names)
    (hrest : visited' ⊆ names) :
    Wrapped forms table (visited ++ visited') (wrapAll forms visited' current) := by
  induction visited' generalizing visited current with
  | nil =>
      rw [List.append_nil]
      exact h
  | cons name rest ih =>
      rw [List.append_cons]
      have hname : name ∈ names := hrest List.mem_cons_self
      refine ih (h.step hseparate hvisited hname) ?_ fun other hother =>
        hrest (List.mem_cons_of_mem _ hother)
      intro other hother
      rcases List.mem_append.mp hother with hother | hother
      · exact hvisited hother
      · exact List.mem_singleton.mp hother ▸ hname

/-- There is one table in which the same names are wrapped. -/
theorem Wrapped.unique (h : Wrapped forms table visited current)
    (h' : Wrapped forms table visited' current') (hmem : ∀ name, name ∈ visited ↔ name ∈ visited') :
    current = current' := by
  funext name
  by_cases hname : name ∈ visited
  · rw [h.wrapped name hname, h'.wrapped name ((hmem name).mp hname)]
  · by_cases hreal : ∃ kept ∈ visited, name = forms.real kept
    · obtain ⟨kept, hkept, rfl⟩ := hreal
      rw [h.real kept hkept, h'.real kept ((hmem kept).mp hkept)]
    · rw [h.other name hname fun kept hkept heq => hreal ⟨kept, hkept, heq⟩,
        h'.other name (fun hname' => hname ((hmem name).mpr hname')) fun kept hkept heq =>
          hreal ⟨kept, (hmem kept).mpr hkept, heq⟩]

/-- While the names are restored, what was kept of them is still there. -/
theorem restoreAll_eq (hseparate : Separate forms names table)
    (hreal : ∀ name ∈ names, current (forms.real name) = table name)
    (hdefined : ∀ name ∈ names, table name = none → current name = none)
    (hvisited : visited ⊆ names) (hold : ∀ name ∈ visited', current name = table name)
    (hmem : name ∈ visited' ∨ name ∈ visited) :
    restoreAll forms visited current name = table name := by
  unfold restoreAll
  induction visited generalizing current visited' with
  | nil => exact hold name (hmem.resolve_right fun h => by cases h)
  | cons first visited ih =>
      have hfirst : first ∈ names := hvisited List.mem_cons_self
      have hstep : ∀ other, restoreOne forms current first other
          = if other = first then table first else current other := by
        intro other
        rw [restoreOne_apply, hreal first hfirst]
        cases hnone : table first with
        | none => rw [hdefined first hfirst hnone]; rfl
        | some value => rfl
      rw [List.foldl_cons]
      refine @ih _ (first :: visited') ?_ ?_
        (fun other hother => hvisited (List.mem_cons_of_mem _ hother)) ?_ ?_
      · intro other hother
        rw [hstep]
        split
        · rename_i heq
          rw [← heq, hseparate.real_undefined other hother,
            hseparate.of_real_mem other hother (heq ▸ hfirst)]
        · exact hreal other hother
      · intro other hother hnone
        rw [hstep]
        split
        · rename_i heq
          exact heq ▸ hnone
        · exact hdefined other hother hnone
      · intro other hother
        rw [hstep]
        split
        · rename_i heq
          rw [heq]
        · rename_i hne
          exact hold other ((List.mem_cons.mp hother).resolve_left hne)
      · rcases hmem with hmem | hmem
        · exact .inl (List.mem_cons_of_mem _ hmem)
        · rcases List.mem_cons.mp hmem with rfl | hmem
          · exact .inl List.mem_cons_self
          · exact .inr hmem

/-- Names whose forms are kept apart are wrapped correctly. -/
theorem Separate.correct (h : Separate forms names table) : Correct forms names table := by
  have hwrapped : Wrapped forms table names (wrapAll forms names table) :=
    wrapped_nil.foldl h (List.nil_subset names) (List.Subset.refl names)
  have hagain : Wrapped forms table (names ++ names)
      (wrapAll forms names (wrapAll forms names table)) :=
    hwrapped.foldl h (List.Subset.refl names) (List.Subset.refl names)
  refine ⟨fun name hname value hvalue => ?_, hwrapped.real, ?_, fun name hname => ?_⟩
  · rw [hwrapped.wrapped name hname, hvalue]
    rfl
  · exact hagain.unique hwrapped fun name => by rw [List.mem_append, or_self]
  · have hnone : ∀ other ∈ ([] : List N), wrapAll forms names table other = table other :=
      fun other hother => by cases hother
    refine restoreAll_eq h hwrapped.real ?_ (List.Subset.refl names) hnone (.inr hname)
    intro other hother hnone
    rw [hwrapped.wrapped other hother, h.wrap_eq_none hother hnone, hnone]
    rfl

end Sufficient

/-! ### Names that get in each other's way -/

section Necessary

variable [DecidableEq N] {forms : Forms N} {table : Table N α} {names : List N} {name : N}
  {value : α}

omit [DecidableEq N] in
theorem size_iterate (forms : Forms N) (k : Nat) (name : N) :
    forms.size name + k ≤ forms.size (forms.wrap^[k] name) := by
  induction k with
  | zero => exact Nat.le_refl _
  | succ k ih =>
      rw [Function.iterate_succ_apply']
      have hsize := forms.size_wrap (forms.wrap^[k] name)
      omega

/-- The name is that of a wrapper, or it has an entry, so that it is not a place where an entry is
kept. -/
def Followed (forms : Forms N) (table : Table N α) (name : N) : Prop :=
  (table name).isSome ∨ ∃ wrapped, name = forms.wrap wrapped

omit [DecidableEq N] in
theorem Followed.iterate (h : Followed forms table name) (k : Nat) :
    Followed forms table (forms.wrap^[k] name) := by
  cases k with
  | zero => exact h
  | succ k => exact .inr ⟨forms.wrap^[k] name, Function.iterate_succ_apply' ..⟩

/-- What a step puts in the place of an entry is that of its wrapper. -/
theorem wrapOne_eq_some {current : N} (h : Followed forms table name)
    (hvalue : wrapOne forms table current name = some value) :
    ∃ k, table (forms.wrap^[k] name) = some value := by
  rw [wrapOne_apply] at hvalue
  split at hvalue
  · rename_i heq
    rcases h with hsome | ⟨wrapped, hwrap⟩
    · refine ⟨0, ?_⟩
      rw [heq] at hsome
      obtain ⟨own, hown⟩ := Option.isSome_iff_exists.mp hsome
      rw [hown] at hvalue
      rw [heq]
      exact hown.trans hvalue
    · exact absurd (hwrap.symm.trans heq) (forms.wrap_ne_real wrapped current)
  · split at hvalue
    · rename_i heq
      cases hwrap : table (forms.wrap current) with
      | none =>
          rw [hwrap] at hvalue
          exact ⟨0, heq ▸ hvalue⟩
      | some wrapper =>
          rw [hwrap] at hvalue
          refine ⟨1, ?_⟩
          show table (forms.wrap name) = some value
          rw [heq, hwrap]
          exact hvalue
    · exact ⟨0, hvalue⟩

/-- An entry is replaced by those of wrappers only. -/
theorem wrapAll_eq_some (h : Followed forms table name)
    (hvalue : wrapAll forms names table name = some value) :
    ∃ k, table (forms.wrap^[k] name) = some value := by
  unfold wrapAll at hvalue
  induction names generalizing table with
  | nil => exact ⟨0, hvalue⟩
  | cons first names ih =>
      have hstep : Followed forms (wrapOne forms table first) name := h.imp_left wrapOne_isSome
      obtain ⟨k, hk⟩ := ih hstep hvalue
      obtain ⟨j, hj⟩ := wrapOne_eq_some (h.iterate k) hk
      rw [← Function.iterate_add_apply] at hj
      exact ⟨j + k, hj⟩

/-- A name with a wrapper loses its own entry. -/
theorem wrapAll_of_mem (hname : name ∈ names) (hwrap : (table (forms.wrap name)).isSome)
    (hvalue : wrapAll forms names table name = some value) :
    ∃ k, table (forms.wrap^[k + 1] name) = some value := by
  unfold wrapAll at hvalue
  induction names generalizing table with
  | nil => cases hname
  | cons first names ih =>
      have hback : ∀ k, wrapOne forms table first (forms.wrap^[k + 1] name) = some value →
          ∃ k, table (forms.wrap^[k + 1] name) = some value := by
        intro k hk
        have hfollowed : Followed forms table (forms.wrap^[k + 1] name) :=
          .inr ⟨forms.wrap^[k] name, Function.iterate_succ_apply' ..⟩
        obtain ⟨j, hj⟩ := wrapOne_eq_some hfollowed hk
        rw [← Function.iterate_add_apply] at hj
        exact ⟨j + k, hj⟩
      by_cases hlater : name ∈ names
      · obtain ⟨k, hk⟩ := ih hlater (wrapOne_isSome hwrap) hvalue
        exact hback k hk
      · obtain rfl : name = first := (List.mem_cons.mp hname).resolve_right hlater
        have hstep : wrapOne forms table name name = table (forms.wrap name) := by
          rw [wrapOne_apply, if_neg (real_ne forms name).symm, if_pos rfl]
          obtain ⟨wrapper, hwrapper⟩ := Option.isSome_iff_exists.mp hwrap
          rw [hwrapper]
          rfl
        have hfollowed : Followed forms (wrapOne forms table name) name := .inl (hstep ▸ hwrap)
        have hlast : wrapAll forms names (wrapOne forms table name) name = some value := hvalue
        obtain ⟨k, hk⟩ := wrapAll_eq_some hfollowed hlast
        cases k with
        | zero => exact ⟨0, hstep.symm.trans hk⟩
        | succ k => exact hback k hk

theorem Correct.real_undefined (h : Correct forms names table) (hone : OneNameEach table)
    (hname : name ∈ names) : table (forms.real name) = none := by
  by_contra hdefined
  have hsome : (table (forms.real name)).isSome := Option.isSome_iff_ne_none.mpr hdefined
  have hkept : (wrapAll forms names table (forms.real name)).isSome := wrapAll_isSome hsome
  obtain ⟨value, hvalue⟩ := Option.isSome_iff_exists.mp hkept
  obtain ⟨k, hk⟩ := wrapAll_eq_some (.inl hsome) hvalue
  have hown : table name = some value := (h.real name hname).symm.trans hvalue
  have heq := hone _ _ value hk hown
  have hsize := size_iterate forms k (forms.real name)
  rw [heq] at hsize
  have hreal := forms.size_real name
  omega

theorem Correct.defined (h : Correct forms names table) (hname : name ∈ names)
    (hwrap : table (forms.wrap name) ≠ none) : table name ≠ none := by
  intro hnone
  obtain ⟨wrapper, hwrapper⟩ := Option.ne_none_iff_exists'.mp hwrap
  have hrestored : (restoreAll forms names (wrapAll forms names table) name).isSome :=
    restoreAll_isSome (by rw [h.wrapped name hname wrapper hwrapper]; rfl)
  rw [h.restored name hname, hnone] at hrestored
  cases hrestored

theorem Correct.of_real_mem (h : Correct forms names table) (hone : OneNameEach table)
    (hname : name ∈ names) (hreal : forms.real name ∈ names) : table name = none := by
  by_contra hdefined
  have hrestored : (restoreAll forms names (wrapAll forms names table) (forms.real name)).isSome :=
    restoreAll_isSome (by rw [h.real name hname]; exact Option.isSome_iff_ne_none.mpr hdefined)
  rw [h.restored _ hreal, h.real_undefined hone hname] at hrestored
  cases hrestored

theorem Correct.of_wrap_mem (h : Correct forms names table) (hone : OneNameEach table)
    (hname : name ∈ names) (hwrap : forms.wrap name ∈ names) :
    table (forms.wrap (forms.wrap name)) = none := by
  by_contra hdefined
  obtain ⟨second, hsecond⟩ := Option.ne_none_iff_exists'.mp hdefined
  obtain ⟨first, hfirst⟩ := Option.ne_none_iff_exists'.mp (h.defined hwrap hdefined)
  have hwrapped := h.wrapped name hname first hfirst
  have hwrapper := h.wrapped _ hwrap second hsecond
  -- the second time, the name takes what has replaced its wrapper
  have hagain : wrapAll forms names (wrapAll forms names table) name = some first := by
    rw [h.again, hwrapped]
  obtain ⟨k, hk⟩ := wrapAll_of_mem hname (by rw [hwrapper]; rfl) hagain
  obtain ⟨j, hj, hj2⟩ : ∃ j, table (forms.wrap^[j] name) = some first ∧ 2 ≤ j := by
    cases k with
    | zero =>
        have heq : some second = some first := hwrapper.symm.trans hk
        exact ⟨2, hsecond.trans heq, Nat.le_refl _⟩
    | succ k =>
        have hfollowed : Followed forms table (forms.wrap^[k + 1 + 1] name) :=
          .inr ⟨forms.wrap^[k + 1] name, Function.iterate_succ_apply' ..⟩
        obtain ⟨i, hi⟩ := wrapAll_eq_some hfollowed hk
        rw [← Function.iterate_add_apply] at hi
        exact ⟨i + (k + 1 + 1), hi, by omega⟩
  obtain ⟨i, rfl⟩ := Nat.exists_eq_add_of_le' hj2
  have heq := hone _ _ first hj hfirst
  have hsize := size_iterate forms (i + 1) (forms.wrap name)
  rw [← Function.iterate_succ_apply] at hsize
  rw [heq] at hsize
  omega

/-- The names are wrapped correctly if and only if their forms are kept apart. -/
theorem correct_iff (hone : OneNameEach table) :
    Correct forms names table ↔ Separate forms names table := by
  constructor
  · intro h
    exact ⟨fun _ hname => h.real_undefined hone hname, fun _ hname => h.defined hname,
      fun _ hname => h.of_real_mem hone hname, fun _ hname => h.of_wrap_mem hone hname⟩
  · exact Separate.correct

end Necessary

end JdxLinker.Overrides
