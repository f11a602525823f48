import JdxLinker.SortedSections.Entries

/-!
# Relocations that need a dynamic entry

Nothing is reserved for a section, and nothing taken for it, if and only if none of its relocations
needs an entry.
-/

namespace JdxLinker.SortedSections

open Relocation

variable {T : Type} {C : ElfClass} {options : Options} {sectionFlags : SectionFlags}

/-- A relocation that entries are reserved for: one in a writable section that refers to a symbol that
another module may define, or that is the address of something in a position independent output. -/
def LoadedRelocation.NeedsEntry (rel : LoadedRelocation T) (options : Options)
    (sectionFlags : SectionFlags) : Prop :=
  sectionFlags.alloc = true ∧ sectionFlags.writable = true ∧ isTls rel.kind = false ∧
    ((resolutionFlags rel.kind).direct = true ∧ rel.flags.isInterposable = true ∨
      isAbsoluteKind rel.kind = true ∧ options.outputKind.isPositionIndependent = true ∧
        (rel.flags.ifunc = true ∨ rel.flags.hasLinkTimeAddress = true))

/-- A relocation that takes an entry when it is applied. -/
def WrittenRelocation.NeedsEntry (rel : WrittenRelocation T) (options : Options)
    (sectionFlags : SectionFlags) : Prop :=
  isAbsoluteKind rel.kind = true ∧ sectionFlags.alloc = true ∧
    (sectionFlags.writable = true ∧ (rel.flags.isInterposable = true ∨
        rel.flags.ifunc = true ∧ options.outputKind.isPositionIndependent = true) ∨
      options.outputKind.isPositionIndependent = true ∧ rel.flags.absolute = false)

/-! ### Loading -/

/-- What a relocation can do to the entries of its section. One that is in a bitmap already needs no
further entry. -/
inductive Materialized (C : ElfClass) (state : LoadState) : LoadState → Prop where
  | allocated (kind : EntryKind) : Materialized C state (state.allocate kind)
  | relr (offset : Nat) (hnew : (state.relrWriter.emitted C offset).2 = .new) :
      Materialized C state
        (LoadState.allocate { state with relrWriter := state.relrWriter.advance C offset } .relr)
  | updated (offset : Nat) (hupdate : (state.relrWriter.emitted C offset).2 = .update) :
      Materialized C state { state with relrWriter := state.relrWriter.advance C offset }

theorem materialize_cases {state state' : LoadState} {rel : LoadedRelocation T}
    (h : materializeRelocationRequirements C options sectionFlags state rel = .ok state') :
    ¬ rel.NeedsEntry options sectionFlags ∧ state' = state ∨
      rel.NeedsEntry options sectionFlags ∧ Materialized C state state' := by
  unfold materializeRelocationRequirements at h
  unfold LoadedRelocation.NeedsEntry
  split at h
  · grind
  · split at h
    · grind
    · split at h
      · -- A symbol of another module needs an entry of its own where it can be written.
        split at h
        · grind
        · split at h
          · grind [Materialized]
          · grind
      · split at h
        · grind [Materialized]
        · split at h
          · split at h
            · grind [Materialized]
            · grind
          · grind

theorem Materialized.total_le {state state' : LoadState} (h : Materialized C state state') :
    state.entries.total ≤ state'.entries.total := by
  cases h with
  | allocated kind =>
      rw [LoadState.allocate, TableEntries.total_allocate]
      exact Nat.le_succ _
  | relr offset _ =>
      rw [LoadState.allocate, TableEntries.total_allocate]
      exact Nat.le_succ _
  | updated offset _ => exact le_rfl

/-- The first entry is never an update. -/
theorem Materialized.total_lt {state state' : LoadState} (h : Materialized C state state')
    (hrun : state.relrWriter = .noRun) : state.entries.total < state'.entries.total := by
  cases h with
  | allocated kind =>
      rw [LoadState.allocate, TableEntries.total_allocate]
      exact Nat.lt_succ_self _
  | relr offset _ =>
      rw [LoadState.allocate, TableEntries.total_allocate]
      exact Nat.lt_succ_self _
  | updated offset hupdate =>
      rw [hrun] at hupdate
      cases hupdate

theorem total_le_foldlM {rels : List (LoadedRelocation T)} {state state' : LoadState}
    (h : rels.foldlM (materializeRelocationRequirements C options sectionFlags) state = .ok state') :
    state.entries.total ≤ state'.entries.total := by
  apply Fallible.foldlM_kept (fun s => state.entries.total ≤ s.entries.total) h _ le_rfl
  intro rel _ s s' hstep hle
  obtain ⟨-, rfl⟩ | ⟨-, hmaterialized⟩ := materialize_cases hstep
  · exact hle
  · exact hle.trans hmaterialized.total_le

/-- Nothing is reserved if and only if no relocation needs an entry. -/
theorem loadSectionRelocations_eq_zero {rels : List (LoadedRelocation T)} {entries : TableEntries}
    (h : loadSectionRelocations C options sectionFlags rels = .ok entries) :
    entries = .zero ↔
      ∀ rel ∈ visited LoadedRelocation.nextModifier .normal rels,
        ¬ rel.NeedsEntry options sectionFlags := by
  obtain ⟨state, hscan, hok⟩ := Fallible.bind_eq_ok.mp h
  cases hok
  rw [scanRelocations_eq] at hscan
  generalize visited LoadedRelocation.nextModifier .normal rels = rels at hscan
  rw [← TableEntries.total_eq_zero]
  induction rels with
  | nil =>
      cases hscan
      exact ⟨fun _ rel hrel => absurd hrel List.not_mem_nil, fun _ => rfl⟩
  | cons rel rels ih =>
      rw [List.foldlM_cons] at hscan
      obtain ⟨next, hstep, hrest⟩ := Fallible.bind_eq_ok.mp hscan
      rw [List.forall_mem_cons]
      obtain ⟨hneeds, rfl⟩ | ⟨hneeds, hmaterialized⟩ := materialize_cases hstep
      · rw [ih hrest]
        exact ⟨fun hnone => ⟨hneeds, hnone⟩, fun hnone => hnone.2⟩
      · have hlt := hmaterialized.total_lt rfl
        have hle := total_le_foldlM hrest
        constructor
        · intro hzero
          omega
        · intro hnone
          exact absurd hneeds hnone.1

/-! ### Writing -/

/-- A writer that has no entries left, and no bitmap. -/
def TableWriter.Exhausted (writer : TableWriter) : Prop :=
  writer.left = .zero ∧ writer.relrWriter = .noRun

theorem TableWriter.take_ne_ok {writer writer' : TableWriter} (h : writer.left = .zero)
    (kind : EntryKind) : writer.take kind ≠ .ok writer' := by
  rw [TableWriter.take, h, TableEntries.take_zero]
  exact fun heq => by cases heq

theorem TableWriter.writeAddressRelocation_ne_ok {writer writer' : TableWriter}
    (h : writer.Exhausted) (place : Nat) :
    writer.writeAddressRelocation C place ≠ .ok writer' := by
  obtain ⟨hleft, hrun⟩ := h
  rw [TableWriter.writeAddressRelocation, hrun]
  split
  · exact TableWriter.take_ne_ok (by exact hleft) .relr
  · exact TableWriter.take_ne_ok hleft .relative

/-- Without entries, a relocation can be applied if and only if it needs none. -/
theorem applyRelocation_exhausted {writer : TableWriter} (h : writer.Exhausted)
    (rel : WrittenRelocation T) :
    (¬ rel.NeedsEntry options sectionFlags →
        applyRelocation C options sectionFlags writer rel = .ok writer) ∧
      (rel.NeedsEntry options sectionFlags →
        ∀ writer', applyRelocation C options sectionFlags writer rel ≠ .ok writer') := by
  have htake := fun kind writer' => @TableWriter.take_ne_ok writer writer' h.1 kind
  have haddress := fun writer' => @TableWriter.writeAddressRelocation_ne_ok C writer writer' h
  unfold applyRelocation writeAbsoluteRelocation WrittenRelocation.NeedsEntry
  split
  · split
    · grind
    · split
      · grind
      · split
        · -- A missing index of the dynamic symbol is an error as well.
          cases rel.dynamicSymbolIndex with
          | none =>
              refine ⟨by grind, fun _ writer' heq => ?_⟩
              cases heq
          | some index => exact ⟨by grind, fun _ writer' => htake .general writer'⟩
        · split
          · grind
          · split
            · grind
            · grind
  · grind

/-- A section can be written without entries if and only if no relocation needs one, and nothing
changes then. -/
theorem applyRelocations_exhausted {writer : TableWriter} (h : writer.Exhausted)
    (rels : List (WrittenRelocation T)) :
    (∃ writer', applyRelocations C options sectionFlags rels writer = .ok writer') ↔
      ∀ rel ∈ visited WrittenRelocation.nextModifier .normal rels,
        ¬ rel.NeedsEntry options sectionFlags := by
  rw [applyRelocations, scanRelocations_eq]
  generalize visited WrittenRelocation.nextModifier .normal rels = rels
  induction rels with
  | nil => exact ⟨fun _ rel hrel => absurd hrel List.not_mem_nil, fun _ => ⟨writer, rfl⟩⟩
  | cons rel rels ih =>
      obtain ⟨hkept, hfails⟩ := applyRelocation_exhausted (C := C) h rel
      rw [List.foldlM_cons, List.forall_mem_cons]
      by_cases hneeds : rel.NeedsEntry options sectionFlags
      · constructor
        · intro hok
          obtain ⟨writer', hok⟩ := hok
          obtain ⟨next, hnext, -⟩ := Fallible.bind_eq_ok.mp hok
          exact absurd hnext (hfails hneeds next)
        · intro hnone
          exact absurd hneeds hnone.1
      · rw [hkept hneeds, Fallible.bind_ok, ih]
        exact ⟨fun hnone => ⟨hneeds, hnone⟩, fun hnone => hnone.2⟩

theorem applyRelocations_eq {writer writer' : TableWriter} (h : writer.Exhausted)
    {rels : List (WrittenRelocation T)}
    (hok : applyRelocations C options sectionFlags rels writer = .ok writer') : writer' = writer := by
  have hnone := (applyRelocations_exhausted h rels).mp ⟨writer', hok⟩
  rw [applyRelocations, scanRelocations_eq] at hok
  generalize visited WrittenRelocation.nextModifier .normal rels = rels at hok hnone
  induction rels with
  | nil =>
      cases hok
      rfl
  | cons rel rels ih =>
      rw [List.forall_mem_cons] at hnone
      rw [List.foldlM_cons, (applyRelocation_exhausted h rel).1 hnone.1, Fallible.bind_ok] at hok
      exact ih hok hnone.2

end JdxLinker.SortedSections
