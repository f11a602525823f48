import JdxLinker.Script.Evaluation

/-!
# The address that a symbol names

A bare symbol is evaluated to its address wherever it is written, with one exception: a symbol of one
output section, named inside another, has the start of that other section added to its address.
-/

namespace JdxLinker.Script

variable {context : Context} {loc : SymbolLoc} {callback : Name → Fallible SymbolValue}
  {name : Name} {value : SymbolValue}

/-- The address of a symbol with the value, where its output section part has been laid out. -/
def finalAddress (context : Context) : SymbolValue → Option UInt64
  | .absolute value => some value
  | .sectionRelative _ address => some address
  | .partRelative partId offset => (context.laidOutMemOffsets partId).map (· + offset)

/-- A symbol of an output section is named inside another, which does not start at zero. -/
def Displaced (context : Context) (loc : SymbolLoc) (value : SymbolValue) : Prop :=
  ∃ sectionId address current, value = .sectionRelative sectionId address ∧
    currentSection context loc = some current ∧
    current ≠ context.outputSections.primaryOutputSection sectionId ∧ memOffset context current ≠ 0

theorem not_displaced (h : ∀ sectionId address, value ≠ .sectionRelative sectionId address) :
    ¬ Displaced context loc value := by
  rintro ⟨sectionId, address, -, hvalue, -⟩
  exact h sectionId address hvalue

/-- Where the symbol's section is the current one, the offset and the section's start make up the
address again. -/
theorem checkedSub_add {address base offset : UInt64} (h : checkedSub address base = some offset) :
    offset + base = address := by
  unfold checkedSub at h
  split at h
  · cases h
    exact UInt64.sub_add_cancel address base
  · cases h

/-- An offset in the current section, with the start of the section added. -/
theorem evaluateAbsolute_sectionRelative {current : OutputSectionId} {address : UInt64}
    {result : UInt64} (hcurrent : currentSection context loc = some current)
    (h : evaluateAbsolute context loc (do
      Evaluation.markSectionRelative
      Evaluation.context (checkedSub address (memOffset context current)) (beforeItsSection name))
        = .ok result) : result = address := by
  cases hoffset : checkedSub address (memOffset context current) with
  | none =>
      rw [hoffset] at h
      cases h
  | some offset =>
      rw [hoffset] at h
      have hresult : addSectionBase context loc (offset, ⟨false, true⟩) = result :=
        Except.ok.inj h
      have hneeds : (⟨false, true⟩ : ExpressionValueKind).needsSectionBase = true := rfl
      rw [addSectionBase, if_pos hneeds, hcurrent] at hresult
      exact hresult.symm.trans (checkedSub_add hoffset)

/-- An address is taken as it is. -/
theorem evaluateAbsolute_absolute (address : UInt64) :
    evaluateAbsolute context loc (do
      Evaluation.markAbsolute
      return address) = .ok address := rfl

theorem evaluateExpression_symbol (hvalue : callback name = .ok value) :
    evaluateExpression context loc callback (.symbol name)
      = evaluateAbsolute context loc (evaluateSymbolValue context loc value name) := by
  unfold evaluateExpression evaluateExpressionValue
  rw [hvalue]
  rfl

/-- What a bare symbol is evaluated to, against its address. -/
theorem evaluateExpression_symbol_iff {result : UInt64} (hvalue : callback name = .ok value)
    (h : evaluateExpression context loc callback (.symbol name) = .ok result) :
    finalAddress context value = some result ↔ ¬ Displaced context loc value := by
  rw [evaluateExpression_symbol hvalue] at h
  cases value with
  | absolute address =>
      obtain rfl := Except.ok.inj h
      exact iff_of_true rfl (not_displaced fun _ _ => SymbolValue.noConfusion)
  | sectionRelative sectionId address =>
      unfold evaluateSymbolValue at h
      dsimp only at h
      by_cases hsame : currentSection context loc
          = some (context.outputSections.primaryOutputSection sectionId)
      · rw [if_pos hsame] at h
        obtain rfl := evaluateAbsolute_sectionRelative hsame h
        refine iff_of_true rfl ?_
        rintro ⟨sectionId', _, current, hvalue', hcurrent, hne, -⟩
        cases hvalue'
        exact hne (Option.some.inj (hcurrent.symm.trans hsame))
      · rw [if_neg hsame] at h
        cases hcurrent : currentSection context loc with
        | none =>
            rw [hcurrent] at h
            obtain rfl := Except.ok.inj h
            refine iff_of_true rfl ?_
            rintro ⟨_, _, current, -, hsome, -⟩
            rw [hcurrent] at hsome
            cases hsome
        | some current =>
            rw [hcurrent] at h
            obtain rfl := Except.ok.inj h
            have hne : current ≠ context.outputSections.primaryOutputSection sectionId :=
              fun heq => hsame (hcurrent.trans (congrArg some heq))
            have hbase : address = address + memOffset context current
                ↔ memOffset context current = 0 := by simp
            refine ⟨fun haddress => ?_, fun hplaced => ?_⟩
            · rintro ⟨_, _, current', -, hcurrent', -, hnonzero⟩
              obtain rfl : current = current' := Option.some.inj (hcurrent.symm.trans hcurrent')
              exact hnonzero (hbase.mp (Option.some.inj haddress))
            · refine congrArg some (hbase.mpr (not_not.mp fun hnonzero => hplaced ?_))
              exact ⟨sectionId, address, current, rfl, hcurrent, hne, hnonzero⟩
  | partRelative partId offset =>
      unfold evaluateSymbolValue at h
      have hplaced : ¬ Displaced context loc (.partRelative partId offset) :=
        not_displaced fun _ _ => SymbolValue.noConfusion
      cases hpart : context.laidOutMemOffsets partId with
      | none =>
          dsimp only at h
          rw [hpart] at h
          cases h
      | some partAddress =>
          refine iff_of_true ?_ hplaced
          have hbind : ∀ f : UInt64 → Evaluation UInt64,
              (Evaluation.context (some partAddress) (notLaidOut name) >>= f) = f partAddress :=
            fun _ => rfl
          rw [finalAddress, hpart]
          dsimp only at h
          rw [hpart] at h
          by_cases hsame : currentSection context loc = some
              (context.outputSections.primaryOutputSection
                (context.outputSections.partSection partId))
          · rw [hbind, if_pos hsame] at h
            exact congrArg some (evaluateAbsolute_sectionRelative hsame h).symm
          · rw [hbind, if_neg hsame] at h
            exact congrArg some (Except.ok.inj h)

/-- In two places where a bare symbol can be evaluated, it is evaluated to the same address, which is
the symbol's, unless it is displaced in one of them. -/
theorem symbol_address_iff {loc' : SymbolLoc} {result result' : UInt64}
    (hvalue : callback name = .ok value)
    (h : evaluateExpression context loc callback (.symbol name) = .ok result)
    (h' : evaluateExpression context loc' callback (.symbol name) = .ok result') :
    (result = result' ∧ finalAddress context value = some result)
      ↔ ¬ Displaced context loc value ∧ ¬ Displaced context loc' value := by
  rw [← evaluateExpression_symbol_iff hvalue h, ← evaluateExpression_symbol_iff hvalue h']
  constructor
  · rintro ⟨rfl, haddress⟩
    exact ⟨haddress, haddress⟩
  · rintro ⟨haddress, haddress'⟩
    exact ⟨Option.some.inj (haddress.symm.trans haddress'), haddress⟩

/-- Two output sections: the first starts at `0x1000`, the second at `0x2000`. -/
def twoSections : Context where
  inputRef := none
  sectionLayouts id :=
    { memSize := 0x1000, alignment := ⟨0⟩, memOffset := if id = 0 then 0x1000 else 0x2000
      lmaOffset := 0 }
  outputSections :=
    { kind := fun _ => .primary, sectionIdByName := fun _ => none, partSection := fun _ => 0 }
  memoryRegions _ := none
  args := ⟨none, none, none⟩
  getUnversioned _ := none
  sizeofHeaders := 0
  resolvedLocationCounters := []
  laidOutMemOffsets _ := none

/-- A symbol of the first section, named inside that section and outside all sections. -/
theorem symbol_address_inside :
    ∃ result result' : UInt64,
      (evaluateExpression twoSections (.sectionEndRelative 0)
          (fun _ => .ok (.sectionRelative 0 0x1010)) (.symbol [0x61]) = .ok result ∧
        evaluateExpression twoSections .none
          (fun _ => .ok (.sectionRelative 0 0x1010)) (.symbol [0x61]) = .ok result') ∧
      result = result' ∧ finalAddress twoSections (.sectionRelative 0 0x1010) = some result := by
  have hinside : evaluateExpression twoSections (.sectionEndRelative 0)
      (fun _ => .ok (.sectionRelative 0 0x1010)) (.symbol [0x61]) = .ok 0x1010 := by decide
  have houtside : evaluateExpression twoSections .none
      (fun _ => .ok (.sectionRelative 0 0x1010)) (.symbol [0x61]) = .ok 0x1010 := by decide
  refine ⟨_, _, ⟨hinside, houtside⟩, (symbol_address_iff rfl hinside houtside).mpr ⟨?_, ?_⟩⟩
  · rintro ⟨_, _, current, hvalue, hcurrent, hne, -⟩
    cases hvalue
    cases hcurrent
    exact hne rfl
  · rintro ⟨_, _, current, -, hcurrent, -⟩
    cases hcurrent

/-- The same symbol, named outside all sections and inside the second section. -/
theorem symbol_address_counterexample :
    finalAddress twoSections (.sectionRelative 0 0x1010) = some 0x1010 ∧
      evaluateExpression twoSections .none (fun _ => .ok (.sectionRelative 0 0x1010))
        (.symbol [0x61]) = .ok 0x1010 ∧
      evaluateExpression twoSections (.sectionEndRelative 1)
        (fun _ => .ok (.sectionRelative 0 0x1010)) (.symbol [0x61]) = .ok 0x3010 := by
  decide

end JdxLinker.Script
