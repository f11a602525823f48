import JdxLinker.Symtab.WriteSymbols

/-!
# The symbol table is filled as it was allocated

What an object writes is the sum of what its symbols write, and so is what was allocated for it. The
two differ where a partial link leaves a versioned name undefined: the space is that of the whole
name, and the version is dropped when the name is written.
-/

namespace JdxLinker.Symtab

open Fallible
open JdxLinker.Resolution (Name RawSymbolName atSign)
open SymbolTableWriter (Follows defineSymbol_defines)

variable {args : ElfArgs} {layout : ElfLayout} {object : ObjectLayout}

/-! ### Space of a symbol -/

/-- The names of the symbols for the GOT and PLT entries of a symbol. -/
def gotPltNames (name : Name) (res : Resolution) : List Name :=
  (displayName name ++ gotSuffix) :: if res.flags.plt then [displayName name ++ pltSuffix] else []

/-- The space of the symbols for GOT and PLT entries. It is allocated with the resolutions. -/
def gotPltSpace (args : ElfArgs) (item : InputSymbol × Option Resolution) : SymtabSpace :=
  if args.gotPltSyms && !args.shouldStripAll then
    match item.2.filter fun res => item.1.isCanonical && res.flags.got, item.1.symbolName with
    | some res, some name => ((gotPltNames name res).map (SymtabSpace.entry true)).sum
    | _, _ => 0
  else 0

/-- The space of a symbol's own entry. -/
def copiedSpace (s : InputSymbol) (info : Option Name) : SymtabSpace :=
  info.elim 0 (SymtabSpace.entry (isSymtabLocal s.flags s.sym))

/-- The space of the entry of an undefined symbol, under its name or a part of it. -/
def undefinedSpace (args : ElfArgs) (part : Name → Name) (s : InputSymbol) : SymtabSpace :=
  (undefinedName args s).elim 0 fun name => .entry false (part name)

/-- The name that an undefined symbol is written with. -/
def withoutVersion (name : Name) : Name := (RawSymbolName.parse name).name

theorem withoutVersion_eq (name : Name) : withoutVersion name = name.takeWhile (· ≠ atSign) := by
  rw [withoutVersion, RawSymbolName.parse]
  split
  · next h =>
      have := List.takeWhile_append_dropWhile (p := (· ≠ atSign)) (l := name)
      rw [h, List.append_nil] at this
      exact this.symm
  · split
    · rfl
    · split <;> rfl

theorem length_withoutVersion_le (name : Name) : (withoutVersion name).length ≤ name.length := by
  rw [withoutVersion_eq]
  exact (List.takeWhile_sublist _).length_le

theorem length_withoutVersion_eq {name : Name} :
    (withoutVersion name).length = name.length ↔ atSign ∉ name := by
  rw [withoutVersion_eq, (List.takeWhile_sublist _).length_eq, List.takeWhile_eq_self_iff]
  refine ⟨fun h hmem => ?_, fun h c hc => ?_⟩
  · have := h atSign hmem
    simp at this
  · rw [decide_eq_true_iff]
    rintro rfl
    exact h hc

/-! ### What was allocated -/

/-- A symbol that is copied stays one when it is marked as referenced. -/
theorem new_union_direct {sections : List SectionSlot} {s : InputSymbol} {name : Name}
    (h : SymbolCopyInfo.new args sections s = .ok (some name)) :
    SymbolCopyInfo.new args sections { s with flags := s.flags.union { direct := true } }
      = .ok (some name) := by
  have hresolution : (s.flags.union { direct := true }).hasResolution = true := by
    rw [ValueFlags.hasResolution_union]
    exact Bool.or_true _
  rw [SymbolCopyInfo.new] at h ⊢
  split at h
  · cases h
  · next hcanonical =>
      rw [if_neg hcanonical]
      obtain ⟨discarded, hdiscarded, h⟩ := bind_eq_ok.mp h
      refine bind_eq_ok.mpr ⟨discarded, hdiscarded, ?_⟩
      rw [Except.ok.injEq] at h ⊢
      split at h
      · cases h
      · next hloaded =>
          rw [if_neg hloaded, hresolution, Bool.not_true, Bool.and_false,
            if_neg Bool.false_ne_true]
          split at h
          · cases h
          · exact h

theorem undefinedName_eq_none {s : InputSymbol} (h : s.sym.isUndefined = false) :
    undefinedName args s = none := by
  rw [undefinedName, h, Bool.and_false, Bool.false_and, if_neg Bool.false_ne_true]

/-- Without an entry of its own, a symbol keeps its flags. -/
theorem allocateSymbol_none (s : InputSymbol) :
    allocateSymbol args s none = (undefinedSpace args id s, s) := by
  rw [allocateSymbol.eq_2, undefinedSpace]
  cases undefinedName args s <;> rfl

theorem undefinedName_allocateSymbol (s : InputSymbol) (info : Option Name) :
    undefinedName args (allocateSymbol args s info).2 = undefinedName args s := by
  cases info with
  | some name => rfl
  | none => rw [allocateSymbol_none]

/-- The space for a symbol is that of its own entry, or that of an undefined symbol. -/
theorem allocateSymbol_eq {sections : List SectionSlot} {s : InputSymbol} {info : Option Name}
    (h : SymbolCopyInfo.new args sections s = .ok info) :
    SymbolCopyInfo.new args sections (allocateSymbol args s info).2 = .ok info ∧
      (allocateSymbol args s info).1 = copiedSpace (allocateSymbol args s info).2 info
        + undefinedSpace args id (allocateSymbol args s info).2 := by
  cases info with
  | some name =>
      refine ⟨new_union_direct h, ?_⟩
      have hdefined : s.sym.isUndefined = false := by
        by_contra hundefined
        rw [SymbolCopyInfo.new_of_isUndefined (Bool.not_eq_false _ ▸ hundefined)] at h
        cases h
      rw [undefinedSpace, undefinedName_allocateSymbol, undefinedName_eq_none hdefined]
      exact (add_zero _).symm
  | none =>
      rw [allocateSymbol_none]
      exact ⟨h, (zero_add _).symm⟩

/-! ### What is written -/

/-- A step of a loop that uses some space for each item uses the total in the whole loop. -/
theorem follows_foldlM {α : Type} {step : SymbolTableWriter → α → Fallible SymbolTableWriter}
    (used : α → SymtabSpace) {items : List α} {w w' : SymbolTableWriter}
    (hstep : ∀ item ∈ items, ∀ w w' : SymbolTableWriter, w.isDynamic = false →
      step w item = .ok w' → Follows w w' (used item))
    (hsymtab : w.isDynamic = false) (h : items.foldlM step w = .ok w') :
    Follows w w' (items.map used).sum := by
  induction items generalizing w with
  | nil =>
      cases h
      exact .refl _
  | cons item items ih =>
      rw [List.foldlM_cons] at h
      obtain ⟨next, hnext, h⟩ := bind_eq_ok.mp h
      have hfollows := hstep item List.mem_cons_self w next hsymtab hnext
      have hrest := ih (fun item hitem => hstep item (List.mem_cons_of_mem _ hitem))
        (hfollows.isDynamic.trans hsymtab) h
      rw [List.map_cons, List.sum_cons]
      exact hfollows.trans hrest

theorem nameToWrite_of_symtab {w : SymbolTableWriter} (h : w.isDynamic = false) (name : Name) :
    w.nameToWrite name = name := by
  rw [SymbolTableWriter.nameToWrite, h, if_neg Bool.false_ne_true, symtabNameForStrtab]

theorem writeSym_follows {w w' : SymbolTableWriter} {s : InputSymbol} {suffix : Name}
    {id : OutputSectionId} {address : Fallible UInt64} (hsymtab : w.isDynamic = false)
    (h : writeSym layout w s suffix id address = .ok w') :
    ∃ name, s.symbolName = some name ∧
      Follows w w' (.entry true (displayName name ++ suffix)) := by
  obtain ⟨name, hname, h⟩ := bind_eq_ok.mp h
  obtain ⟨shndx, -, h⟩ := bind_eq_ok.mp h
  obtain ⟨value, -, h⟩ := bind_eq_ok.mp h
  obtain ⟨⟨entry, defined⟩, hdefine, h⟩ := bind_eq_ok.mp h
  cases h
  have hfollows := (defineSymbol_defines hdefine).follows
  rw [nameToWrite_of_symtab hsymtab] at hfollows
  exact ⟨name, context_eq_ok.mp hname, hfollows⟩

theorem writeGotPltSyms_follows {w w' : SymbolTableWriter} {item : InputSymbol × Option Resolution}
    (hsymtab : w.isDynamic = false) (hargs : args.gotPltSyms = true)
    (hstrip : args.shouldStripAll = false)
    (h : writeGotPltSyms layout w item.1 item.2 = .ok w') :
    Follows w w' (gotPltSpace args item) := by
  rw [gotPltSpace, hargs, hstrip, Bool.not_false, Bool.and_true, if_pos rfl]
  rw [writeGotPltSyms] at h
  split at h
  · next hnone =>
      cases h
      rw [hnone]
      exact .refl _
  · next res hres =>
      obtain ⟨got, hgot, h⟩ := bind_eq_ok.mp h
      obtain ⟨name, hname, hfollows⟩ := writeSym_follows hsymtab hgot
      rw [hres, hname]
      show Follows w w' ((gotPltNames name res).map (SymtabSpace.entry true)).sum
      rw [gotPltNames, List.map_cons, List.sum_cons]
      refine hfollows.trans ?_
      rw [writePltSym] at h
      split at h
      · next hplt =>
          obtain ⟨name', hname', hplt'⟩ := writeSym_follows (hfollows.isDynamic.trans hsymtab) h
          obtain rfl : name = name' := Option.some.inj (hname.symm.trans hname')
          rw [if_pos hplt, List.map_cons, List.map_nil, List.sum_cons, List.sum_nil, add_zero]
          exact hplt'
      · next hplt =>
          cases h
          rw [if_neg hplt]
          exact .refl _

/-- A symbol that has a resolution is in a section that symbols are copied from. -/
theorem symbolPlace_ne_skipped {s : InputSymbol} {res : Resolution}
    (h : createSymbolResolution layout object s = .ok (some res)) :
    symbolPlace object s ≠ .ok .skipped := by
  intro hskipped
  rw [createSymbolResolution] at h
  split at h
  · cases h
  obtain ⟨rawValue, hvalue, h⟩ := bind_eq_ok.mp h
  obtain ⟨inSection, hsection, hskipped⟩ := bind_eq_ok.mp hskipped
  rw [symbolValue, hsection, bind_ok] at hvalue
  cases inSection with
  | none =>
      simp only at hskipped
      split at hskipped
      · cases hskipped
      · split at hskipped <;> cases hskipped
  | some sectionIndex =>
      obtain ⟨slot, hslot, hskipped⟩ := bind_eq_ok.mp hskipped
      have hslot := unwrap_eq_ok.mp hslot
      have hmapping : isMappingSymbol s = true := by
        split at hskipped <;> first | cases hskipped | skip
        split at hskipped
        · assumption
        · cases hskipped
      have hunloaded : rawValue = none := by
        cases slot <;> first | cases hskipped | skip
        all_goals
          simp only [sectionSymbolValue, ObjectLayout.sectionResolution, hslot, unwrap,
            bind_ok, getMergedStringOutputAddress, hmapping, if_true, Except.ok.injEq] at hvalue
          exact hvalue.symm
      rw [hunloaded] at h
      cases h

theorem copyObjectSymbol_follows {w w' : SymbolTableWriter} {s : InputSymbol} {name : Name}
    {value : UInt64} {res : Resolution} (hsymtab : w.isDynamic = false)
    (hres : createSymbolResolution layout object s = .ok (some res))
    (h : copyObjectSymbol layout object w s name value = .ok w') :
    Follows w w' (.entry (isSymtabLocal s.flags s.sym) name) := by
  obtain ⟨place, hplace, h⟩ := bind_eq_ok.mp h
  cases place with
  | skipped => exact absurd hplace (symbolPlace_ne_skipped hres)
  | absolute =>
      obtain ⟨⟨entry, copied⟩, hcopy, h⟩ := bind_eq_ok.mp h
      cases h
      have hfollows := (SymbolTableWriter.copyAbsoluteSymbol_defines hcopy).follows
      rwa [nameToWrite_of_symtab hsymtab] at hfollows
  | inSection id =>
      obtain ⟨⟨entry, copied⟩, hcopy, h⟩ := bind_eq_ok.mp h
      obtain ⟨size, -, h⟩ := bind_eq_ok.mp h
      obtain ⟨_, -, h⟩ := bind_eq_ok.mp h
      obtain ⟨shndx, -, hcopy⟩ := bind_eq_ok.mp hcopy
      cases h
      have hdefines := SymbolTableWriter.copySymbolShndx_defines hcopy
      have hfollows := (hdefines.update { entry with stSize := size } rfl).follows
      rwa [nameToWrite_of_symtab hsymtab] at hfollows

/-- The entry that a symbol gets, unless it is left out. -/
def symbolSpace (args : ElfArgs) (sections : List SectionSlot) (s : InputSymbol) : SymtabSpace :=
  match SymbolCopyInfo.new args sections s with
  | .ok info => copiedSpace s info
  | .error _ => 0

theorem writeSymbol_follows {w w' : SymbolTableWriter} {item : InputSymbol × Option Resolution}
    (hsymtab : w.isDynamic = false) (hstrip : args.shouldStripAll = false)
    (hres : createSymbolResolution layout object item.1 = .ok item.2)
    (h : writeSymbol args layout object w item = .ok w') :
    Follows w w' (gotPltSpace args item + symbolSpace args object.sections item.1) := by
  obtain ⟨next, hgot, h⟩ := bind_eq_ok.mp h
  obtain ⟨info, hinfo, h⟩ := bind_eq_ok.mp h
  have hgot : Follows w next (gotPltSpace args item) := by
    rw [writeRequestedGotPltSyms] at hgot
    split at hgot
    · next hargs => exact writeGotPltSyms_follows hsymtab hargs hstrip hgot
    · next hargs =>
        cases hgot
        rw [gotPltSpace, Bool.eq_false_iff.mpr hargs, Bool.false_and, if_neg Bool.false_ne_true]
        exact .refl _
  refine hgot.trans ?_
  rw [symbolSpace, hinfo]
  cases info with
  | none =>
      cases h
      exact .refl _
  | some name =>
      obtain ⟨res, hsome, h⟩ := bind_eq_ok.mp h
      rw [context_eq_ok.mp hsome] at hres
      exact copyObjectSymbol_follows (hgot.isDynamic.trans hsymtab) hres h

theorem writeUndefined_follows {w w' : SymbolTableWriter} {item : InputSymbol × Option Resolution}
    (hsymtab : w.isDynamic = false) (h : writeUndefined args layout w item = .ok w') :
    Follows w w' (undefinedSpace args withoutVersion item.1) := by
  rw [writeUndefined] at h
  rw [undefinedSpace]
  cases hname : undefinedName args item.1 with
  | none =>
      rw [hname] at h
      cases h
      exact .refl _
  | some name =>
      rw [hname] at h
      obtain ⟨⟨entry, defined⟩, hdefine, h⟩ := bind_eq_ok.mp h
      cases h
      have hfollows := ((defineSymbol_defines hdefine).update
        { entry with stInfo := item.1.sym.stInfo, stOther := item.1.sym.stOther } rfl).follows
      rwa [nameToWrite_of_symtab hsymtab] at hfollows

/-! ### Whole objects -/

/-- No symbol that a partial link leaves undefined has a version in its name. -/
def UndefinedNamesUnversioned (args : ElfArgs) (symbols : List InputSymbol) : Prop :=
  args.shouldOutputPartialObject = true → ∀ s ∈ symbols, s.sym.isUndefined = true →
    s.isCanonical = true → ∀ name, s.symbolName = some name → atSign ∉ name

theorem undefinedName_eq_some {s : InputSymbol} {name : Name} :
    undefinedName args s = some name ↔ args.shouldOutputPartialObject = true ∧
      s.sym.isUndefined = true ∧ s.isCanonical = true ∧ s.symbolName = some name ∧ name ≠ [] := by
  rw [undefinedName]
  split
  · next h =>
      simp only [Bool.and_eq_true] at h
      rw [Option.filter_eq_some_iff]
      simp [h.1.1, h.1.2, h.2]
  · next h =>
      simp only [Bool.and_eq_true] at h
      simp only [reduceCtorEq, false_iff]
      rintro ⟨hrelocatable, hundefined, hcanonical, -⟩
      exact h ⟨⟨hrelocatable, hundefined⟩, hcanonical⟩

theorem undefinedNamesUnversioned_iff {symbols : List InputSymbol} :
    UndefinedNamesUnversioned args symbols ↔
      ∀ s ∈ symbols, ∀ name, undefinedName args s = some name → atSign ∉ name := by
  constructor
  · intro h s hs name hname
    obtain ⟨hrelocatable, hundefined, hcanonical, hname, -⟩ := undefinedName_eq_some.mp hname
    exact h hrelocatable s hs hundefined hcanonical name hname
  · intro h hrelocatable s hs hundefined hcanonical name hname hmem
    refine h s hs name ?_ hmem
    exact undefinedName_eq_some.mpr
      ⟨hrelocatable, hundefined, hcanonical, hname, List.ne_nil_of_mem hmem⟩

/-- What is allocated is the space of the entries, where undefined symbols count with their whole
names. -/
theorem allocateObjectSymtabSpace_eq_ok {sections : List SectionSlot}
    {symbols symbols' : List InputSymbol} {space : SymtabSpace}
    (h : allocateObjectSymtabSpace args sections symbols = .ok (space, symbols')) :
    space = (symbols'.map (symbolSpace args sections)).sum
        + (symbols'.map (undefinedSpace args id)).sum ∧
      symbols'.map (undefinedName args) = symbols.map (undefinedName args) := by
  obtain ⟨allocated, hallocated, h⟩ := bind_eq_ok.mp h
  cases h
  constructor
  · rw [← List.sum_map_add, List.map_map]
    congr 1
    refine List.map_congr_left ?_
    intro pair hpair
    obtain ⟨s, -, hs⟩ := mapM_mem hallocated hpair
    obtain ⟨info, hinfo, hs⟩ := bind_eq_ok.mp hs
    cases hs
    obtain ⟨hnew, hspace⟩ := allocateSymbol_eq hinfo
    rw [hspace, Function.comp_apply, symbolSpace, hnew]
  · rw [List.map_map]
    refine mapM_project ?_ hallocated
    intro s pair hs
    obtain ⟨info, -, hs⟩ := bind_eq_ok.mp hs
    cases hs
    exact undefinedName_allocateSymbol s info

theorem undefinedSpace_eq {s : InputSymbol} :
    undefinedSpace args withoutVersion s = undefinedSpace args id s ↔
      ∀ name, undefinedName args s = some name → atSign ∉ name := by
  rw [undefinedSpace, undefinedSpace]
  cases hname : undefinedName args s with
  | none => simp
  | some name =>
      simp only [Option.elim_some, Option.some.injEq, forall_eq', id_eq]
      rw [← length_withoutVersion_eq]
      constructor
      · intro h
        have := congrArg SymtabSpace.strings h
        simpa using this
      · intro h
        rw [SymtabSpace.entry, h]
        rfl

theorem undefinedSpace_strings_le (args : ElfArgs) (s : InputSymbol) :
    (undefinedSpace args withoutVersion s).strings ≤ (undefinedSpace args id s).strings := by
  rw [undefinedSpace, undefinedSpace]
  cases undefinedName args s with
  | none => exact Nat.le_refl 0
  | some name => exact Nat.succ_le_succ (length_withoutVersion_le name)

theorem sum_undefinedSpace_strings_le (args : ElfArgs) (symbols : List InputSymbol) :
    (symbols.map (undefinedSpace args withoutVersion)).sum.strings
      ≤ (symbols.map (undefinedSpace args id)).sum.strings := by
  induction symbols with
  | nil => exact Nat.le_refl 0
  | cons s symbols ih =>
      simp only [List.map_cons, List.sum_cons, SymtabSpace.add_strings]
      exact Nat.add_le_add (undefinedSpace_strings_le args s) ih

theorem undefinedSpace_eq_of_strings {s : InputSymbol}
    (h : (undefinedSpace args withoutVersion s).strings = (undefinedSpace args id s).strings) :
    undefinedSpace args withoutVersion s = undefinedSpace args id s := by
  rw [undefinedSpace, undefinedSpace] at h ⊢
  cases hname : undefinedName args s with
  | none => rfl
  | some name =>
      rw [hname] at h
      have hlength : (withoutVersion name).length = name.length := Nat.succ.inj h
      simp only [Option.elim_some, SymtabSpace.entry, hlength, id_eq]

/-- The names of all undefined symbols are written as long as they were counted, or one of them is
shorter. -/
theorem sum_undefinedSpace_eq {symbols : List InputSymbol} :
    (symbols.map (undefinedSpace args withoutVersion)).sum
        = (symbols.map (undefinedSpace args id)).sum ↔
      ∀ s ∈ symbols, ∀ name, undefinedName args s = some name → atSign ∉ name := by
  simp only [← undefinedSpace_eq]
  constructor
  · intro h
    induction symbols with
    | nil => simp
    | cons s symbols ih =>
        simp only [List.map_cons, List.sum_cons] at h
        have hstrings := congrArg SymtabSpace.strings h
        simp only [SymtabSpace.add_strings] at hstrings
        have hle := undefinedSpace_strings_le args s
        have hrest := sum_undefinedSpace_strings_le args symbols
        have hs : undefinedSpace args withoutVersion s = undefinedSpace args id s :=
          undefinedSpace_eq_of_strings (by omega)
        rw [hs] at h
        intro other hother
        rcases List.mem_cons.mp hother with rfl | hother
        · exact hs
        · exact ih (add_left_cancel h) other hother
  · intro h
    rw [List.map_congr_left h]

theorem follows_iff {w w' : SymbolTableWriter} {used used' : SymtabSpace} (h : Follows w w' used) :
    Follows w w' used' ↔ used = used' := by
  constructor
  · intro h'
    exact add_left_cancel (h.unwritten.symm.trans h'.unwritten)
  · rintro rfl
    exact h

/-- What the symbols of an object use. -/
theorem writeSymbols_follows {w w' : SymbolTableWriter} {symbols : List InputSymbol}
    {items : List (InputSymbol × Option Resolution)} (hsymtab : w.isDynamic = false)
    (hstrip : args.shouldStripAll = false)
    (hfinalise : finaliseSymbols layout object symbols = .ok items)
    (h : writeSymbols args layout object w items = .ok w') :
    Follows w w' ((items.map (gotPltSpace args)).sum
      + (symbols.map (symbolSpace args object.sections)).sum
      + (symbols.map (undefinedSpace args withoutVersion)).sum) := by
  have hitems : items.map Prod.fst = symbols := by
    rw [mapM_project (k := id) ?_ hfinalise, List.map_id]
    intro s item hitem
    obtain ⟨res, -, hitem⟩ := bind_eq_ok.mp hitem
    cases hitem
    rfl
  obtain ⟨next, hcopied, hundefined⟩ := bind_eq_ok.mp h
  have hcopied := follows_foldlM
    (fun item => gotPltSpace args item + symbolSpace args object.sections item.1) ?_ hsymtab hcopied
  · have hundefined := follows_foldlM (fun item => undefinedSpace args withoutVersion item.1)
      (fun item _ w w' hsymtab h => writeUndefined_follows hsymtab h)
      (hcopied.isDynamic.trans hsymtab) hundefined
    rw [List.sum_map_add] at hcopied
    rw [← hitems, List.map_map, List.map_map]
    exact hcopied.trans hundefined
  · intro item hitem w w' hsymtab h
    obtain ⟨s, -, hs⟩ := mapM_mem hfinalise hitem
    obtain ⟨res, hres, hs⟩ := bind_eq_ok.mp hs
    cases hs
    exact writeSymbol_follows hsymtab hstrip hres h

theorem gotPltSpace_of_strip (hstrip : args.shouldStripAll = true)
    (item : InputSymbol × Option Resolution) : gotPltSpace args item = 0 := by
  rw [gotPltSpace, hstrip, Bool.not_true, Bool.and_false, if_neg Bool.false_ne_true]

theorem not_partial_of_strip (hstrip : args.shouldStripAll = true) :
    args.shouldOutputPartialObject = false := by
  rw [ElfArgs.shouldStripAll] at hstrip
  split at hstrip
  · exact Bool.not_eq_true' _ ▸ hstrip
  · cases hstrip

/-- A partial link that keeps all symbols. -/
def partialLink : ElfArgs :=
  { shouldOutputPartialObject := true, strip := .nothing, gotPltSyms := false }

def undefinedSymbolNamed (name : Name) : InputSymbol where
  sym := ⟨1, 0x10, 0, SHN_UNDEF, 0, 0⟩
  symbolName := some name
  symbolSection := .ok none
  isCanonical := true
  flags := .empty

def layoutWithoutSections : ElfLayout where
  addressSize := 8
  tlsStartAddress := 0
  primaryOutputSection := id
  outputIndexOfSection _ := none
  commonAddress _ := 0
  gotAddress _ := none
  pltAddress _ := none

def objectWithoutSections : ObjectLayout where
  sections := []
  sectionAddress _ := 0
  outputSectionId _ := .other 0
  sectionRelaxDeltas _ := none
  mergedStringAddress _ _ := .error .panic

/-- A writer that owns some global entries and string bytes. -/
def globalsWriter (written : List SymtabEntry) (globals : Nat) (strings : List UInt8)
    (left : Nat) : SymbolTableWriter where
  localEntries := ⟨[], 0⟩
  globalEntries := ⟨written, globals⟩
  strtabWriter := ⟨1 + UInt32.ofNat strings.length, strings, left⟩
  isDynamic := false
  symtabShndxLocalEntries := none
  symtabShndxGlobalEntries := none

def undefinedEntry (stName : UInt32) : SymtabEntry := ⟨stName, 0x10, 0, SHN_UNDEF, 0, 0⟩

end JdxLinker.Symtab
