import JdxLinker.Script.Evaluation

/-!
# Symbols that are defined by expressions

After layout, the symbols that `--defsym` and linker scripts define have their expressions evaluated,
in one pass over the definitions. Their values are zero before the pass.
-/

namespace JdxLinker.Script

open Utf8

inductive RedirectKind where
  | defSym
  | script
  deriving Repr, DecidableEq

def RedirectKind.messageText : RedirectKind → String
  | defSym => "--defsym"
  | script => "linker script"

structure Redirect where
  kind : RedirectKind
  expression : Expression
  loc : SymbolLoc
  deriving Repr, DecidableEq

namespace Redirect

def missingTarget (redirect : Redirect) (targetName : Name) : String :=
  s!"Symbol '{fromUtf8Lossy targetName}' referenced by {redirect.kind.messageText} does not exist"

def missingResolution (redirect : Redirect) (targetName : Name) : String :=
  s!"Symbol '{fromUtf8Lossy targetName}' referenced by {redirect.kind.messageText} " ++
    "has no resolution."

end Redirect

inductive SymbolPlacement where
  | redirect (redirect : Redirect)
  /-- A placement whose address is known before the pass. -/
  | other
  deriving Repr, DecidableEq

structure InternalSymDefInfo where
  placement : SymbolPlacement
  name : Name
  deriving Repr, DecidableEq

structure ProcessedLinkerScript where
  input : InputRef
  symbolDefs : List InternalSymDefInfo
  deriving Repr, DecidableEq

inductive Group where
  | prelude (symbolDefinitions : List InternalSymDefInfo)
  | linkerScripts (scripts : List ProcessedLinkerScript)
  /-- Objects, stub libraries and synthetic symbols. -/
  | other
  deriving Repr, DecidableEq

def Group.definitions : Group → List InternalSymDefInfo
  | prelude symbolDefinitions => symbolDefinitions
  | linkerScripts scripts => scripts.flatMap ProcessedLinkerScript.symbolDefs
  | other => []

structure SymbolDb where
  groups : List Group
  getUnversioned : Name → Option SymbolId
  definition : SymbolId → SymbolId
  outputSectionId : SymbolId → Option OutputSectionId
  args : Args
  /-- The names that are defined by expressions were entered into the symbol table. -/
  entered : ∀ group ∈ groups, ∀ defInfo ∈ group.definitions, ∀ redirect,
    defInfo.placement = .redirect redirect → defInfo.name ≠ [] →
      (getUnversioned defInfo.name).isSome

/-- The raw values of the symbols that have a resolution. -/
abbrev Resolutions := SymbolId → Option UInt64

/-- What the layout has determined before the pass. -/
structure FinalLayout where
  outputSections : OutputSections
  sectionLayouts : OutputSectionId → OutputRecordLayout
  mergedSectionLayouts : OutputSectionId → OutputRecordLayout
  sizeofHeaders : UInt64
  memoryRegions : Name → Option MemoryRegion
  resolvedLocationCounters : List ResolvedLocationCounter

section Update

variable (db : SymbolDb) (layout : FinalLayout)

def lateContext (inputRef : Option InputRef) (sectionLayouts : OutputSectionId → OutputRecordLayout)
    (resolvedLocationCounters : List ResolvedLocationCounter) : Context where
  inputRef := inputRef
  sectionLayouts := sectionLayouts
  outputSections := layout.outputSections
  memoryRegions := layout.memoryRegions
  args := db.args
  getUnversioned := db.getUnversioned
  sizeofHeaders := layout.sizeofHeaders
  resolvedLocationCounters := resolvedLocationCounters
  -- no symbol is relative to a part any more
  laidOutMemOffsets _ := none

/-- The definition that a name stands for. -/
def canonicalTarget (name : Name) : Option SymbolId := (db.getUnversioned name).map db.definition

/-- What a symbol that an expression mentions resolves to. -/
def resolveTarget (redirect : Redirect) (resolutions : Resolutions) (name : Name) :
    Fallible SymbolValue := do
  let canonicalTargetId ← Fallible.context (canonicalTarget db name) (redirect.missingTarget name)
  let rawValue ← Fallible.context (resolutions canonicalTargetId) (redirect.missingResolution name)
  match db.outputSectionId canonicalTargetId with
  | some sectionId => return .sectionRelative sectionId rawValue
  | none => return .absolute rawValue

/-- The value of the definition's expression while the symbols have the given values. -/
def redirectValue (context : Context) (redirect : Redirect) (resolutions : Resolutions) :
    Fallible UInt64 :=
  evaluateExpression context redirect.loc (resolveTarget db redirect resolutions)
    redirect.expression

def updateDefsymSymbolResolution (context : Context) (defInfo : InternalSymDefInfo)
    (resolutions : Resolutions) : Fallible Resolutions :=
  match defInfo.placement with
  | .redirect redirect => do
    let value ← redirectValue db context redirect resolutions
    if defInfo.name = [] then return resolutions
    else do
      let canonicalSymbolId ← Fallible.context (canonicalTarget db defInfo.name)
        (redirect.missingTarget defInfo.name)
      let _ ← Fallible.context (resolutions canonicalSymbolId)
        (redirect.missingResolution defInfo.name)
      return Function.update resolutions canonicalSymbolId (some value)
  | .other => return resolutions

/-- Locations inside a section are evaluated before the sections of a segment are merged. -/
def SymbolLoc.usesSectionLayouts : SymbolLoc → Bool
  | sectionStartRelative _ | sectionEndRelative _ | locationCounter _ _ => true
  | _ => false

def scriptContext (script : ProcessedLinkerScript) (redirect : Redirect) : Context :=
  lateContext db layout (some script.input)
    (if redirect.loc.usesSectionLayouts then layout.sectionLayouts else layout.mergedSectionLayouts)
    layout.resolvedLocationCounters

def preludeContext : Context := lateContext db layout none layout.mergedSectionLayouts []

def updateScriptSymbol (script : ProcessedLinkerScript) (resolutions : Resolutions)
    (defInfo : InternalSymDefInfo) : Fallible Resolutions :=
  match defInfo.placement with
  | .redirect redirect =>
    updateDefsymSymbolResolution db (scriptContext db layout script redirect) defInfo resolutions
  | .other => return resolutions

def updateGroup (resolutions : Resolutions) : Group → Fallible Resolutions
  | .prelude symbolDefinitions =>
    symbolDefinitions.foldlM (fun resolutions defInfo =>
      updateDefsymSymbolResolution db (preludeContext db layout) defInfo resolutions) resolutions
  | .linkerScripts scripts =>
    scripts.foldlM (fun resolutions script =>
      script.symbolDefs.foldlM (updateScriptSymbol db layout script) resolutions) resolutions
  | .other => return resolutions

def updateRedirectResolutions (resolutions : Resolutions) : Fallible Resolutions :=
  db.groups.foldlM (updateGroup db layout) resolutions

end Update

end JdxLinker.Script

/-!
## The order of symbol definitions

The pass over the definitions gives every symbol the value of its expression, whatever the
expressions are, exactly where no definition mentions a symbol that is defined with it or after it,
and no symbol is defined twice.
-/

namespace JdxLinker.Script

open Utf8

/-! ### The definitions of all groups, one after the other -/

/-- A definition, with what its expression is evaluated against. -/
abbrev Entry := (Redirect → Context) × InternalSymDefInfo

def groupEntries (db : SymbolDb) (layout : FinalLayout) : Group → List Entry
  | .prelude symbolDefinitions =>
    symbolDefinitions.map fun defInfo => (fun _ => preludeContext db layout, defInfo)
  | .linkerScripts scripts =>
    scripts.flatMap fun script =>
      script.symbolDefs.map fun defInfo => (scriptContext db layout script, defInfo)
  | .other => []

def entries (db : SymbolDb) (layout : FinalLayout) : List Entry :=
  db.groups.flatMap (groupEntries db layout)

def definitions (db : SymbolDb) : List InternalSymDefInfo := db.groups.flatMap Group.definitions

def updateEntry (db : SymbolDb) (resolutions : Resolutions) (entry : Entry) :
    Fallible Resolutions :=
  match entry.2.placement with
  | .redirect redirect =>
    updateDefsymSymbolResolution db (entry.1 redirect) entry.2 resolutions
  | .other => .ok resolutions

section Flatten

variable (db : SymbolDb) (layout : FinalLayout)

theorem updateGroup_eq (resolutions : Resolutions) (group : Group) :
    updateGroup db layout resolutions group
      = (groupEntries db layout group).foldlM (updateEntry db) resolutions := by
  cases group with
  | «prelude» symbolDefinitions =>
      unfold updateGroup groupEntries
      dsimp only
      rw [List.foldlM_map]
      congr 1
      funext resolutions defInfo
      unfold updateEntry updateDefsymSymbolResolution
      cases defInfo.placement <;> rfl
  | linkerScripts scripts =>
      unfold updateGroup groupEntries
      dsimp only
      rw [Fallible.foldlM_flatMap]
      congr 1
      funext resolutions script
      rw [List.foldlM_map]
      rfl
  | other => rfl

theorem updateRedirectResolutions_eq (resolutions : Resolutions) :
    updateRedirectResolutions db layout resolutions
      = (entries db layout).foldlM (updateEntry db) resolutions := by
  unfold updateRedirectResolutions entries
  rw [Fallible.foldlM_flatMap]
  congr 1
  funext resolutions group
  exact updateGroup_eq db layout resolutions group

theorem entries_map : (entries db layout).map Prod.snd = definitions db := by
  unfold entries definitions
  rw [List.map_flatMap]
  congr 1
  funext group
  cases group with
  | «prelude» symbolDefinitions =>
      unfold groupEntries Group.definitions
      rw [List.map_map]
      exact List.map_id _
  | linkerScripts scripts =>
      unfold groupEntries Group.definitions
      rw [List.map_flatMap]
      congr 1
      funext script
      rw [List.map_map]
      exact List.map_id _
  | other => rfl

end Flatten

/-! ### The reference graph -/

/-- What a definition defines, and what its expression mentions. -/
structure Reference where
  defines : Option SymbolId
  mentions : Set SymbolId

/-- The symbols that the expression of a redirect mentions. -/
def mentioned (db : SymbolDb) (redirect : Redirect) : Set SymbolId :=
  { id | ∃ name ∈ redirect.expression.symbols, canonicalTarget db name = some id }

def reference (db : SymbolDb) (defInfo : InternalSymDefInfo) : Reference :=
  match defInfo.placement with
  | .redirect redirect =>
    { defines := if defInfo.name = [] then none else canonicalTarget db defInfo.name
      mentions := mentioned db redirect }
  | .other => { defines := none, mentions := ∅ }

/-- The references of all definitions, in the order of the definitions. -/
def referenceGraph (db : SymbolDb) : List Reference := (definitions db).map (reference db)

/-- A definition that is not affected by a later one. -/
def Unaffected (reference later : Reference) : Prop :=
  ∀ target id, reference.defines = some target → later.defines = some id →
    id ≠ target ∧ id ∉ reference.mentions

/-- No definition mentions a symbol that is defined with it or after it, and no symbol is defined
twice. -/
def InOrder (graph : List Reference) : Prop :=
  (∀ reference ∈ graph, ∀ id, reference.defines = some id → id ∉ reference.mentions) ∧
    graph.Pairwise Unaffected

/-- The symbol that is defined has the value of its expression, evaluated with the given values of
all symbols. -/
def Resolved (db : SymbolDb) (entry : Entry) (resolutions : Resolutions) : Prop :=
  ∀ redirect, entry.2.placement = .redirect redirect → entry.2.name ≠ [] →
    ∃ id value, canonicalTarget db entry.2.name = some id ∧ resolutions id = some value ∧
      redirectValue db (entry.1 redirect) redirect resolutions = .ok value

/-! ### One definition -/

section Step

variable {db : SymbolDb} {resolutions resolutions' : Resolutions}

/-- The value depends only on the symbols that are mentioned. -/
theorem redirectValue_congr {context : Context} {redirect : Redirect}
    (h : ∀ id ∈ mentioned db redirect, resolutions id = resolutions' id) :
    redirectValue db context redirect resolutions
      = redirectValue db context redirect resolutions' := by
  refine evaluateExpression_congr fun name hname => ?_
  unfold resolveTarget
  cases htarget : canonicalTarget db name with
  | none => rfl
  | some id =>
      have hsame := h id ⟨name, hname, htarget⟩
      show (Fallible.context (resolutions id) _ >>= _) = (Fallible.context (resolutions' id) _ >>= _)
      rw [hsame]

/-- A definition changes nothing, or it gives its symbol the value of its expression. -/
theorem updateEntry_cases {entry : Entry}
    (h : updateEntry db resolutions entry = .ok resolutions') :
    ((∀ redirect, entry.2.placement = .redirect redirect → entry.2.name = []) ∧
        (reference db entry.2).defines = none ∧ resolutions' = resolutions) ∨
      ∃ redirect id value, entry.2.placement = .redirect redirect ∧
        (reference db entry.2).defines = some id ∧ canonicalTarget db entry.2.name = some id ∧
        redirectValue db (entry.1 redirect) redirect resolutions = .ok value ∧
        resolutions' = Function.update resolutions id (some value) := by
  unfold updateEntry updateDefsymSymbolResolution at h
  unfold reference
  cases hplacement : entry.2.placement with
  | other =>
      rw [hplacement] at h
      exact .inl ⟨fun _ hredirect => (by cases hredirect), rfl, (Except.ok.inj h).symm⟩
  | redirect redirect =>
      rw [hplacement] at h
      dsimp only at h ⊢
      obtain ⟨value, hvalue, h⟩ := Fallible.bind_eq_ok.mp h
      by_cases hname : entry.2.name = []
      · rw [if_pos hname] at h ⊢
        exact .inl ⟨fun _ _ => hname, rfl, (Except.ok.inj h).symm⟩
      · rw [if_neg hname] at h ⊢
        obtain ⟨id, hid, h⟩ := Fallible.bind_eq_ok.mp h
        obtain ⟨_, -, h⟩ := Fallible.bind_eq_ok.mp h
        have hid := Fallible.context_eq_ok.mp hid
        exact .inr ⟨redirect, id, value, rfl, hid, hid, hvalue, (Except.ok.inj h).symm⟩

/-- Only the symbol that is defined changes. -/
theorem updateEntry_of_ne {entry : Entry} (h : updateEntry db resolutions entry = .ok resolutions')
    {id : SymbolId} (hid : (reference db entry.2).defines ≠ some id) :
    resolutions' id = resolutions id := by
  obtain ⟨-, -, rfl⟩ | ⟨_, target, value, -, hdefines, -, -, rfl⟩ := updateEntry_cases h
  · rfl
  · refine Function.update_of_ne (fun heq => hid ?_) _ _
    rw [heq]
    exact hdefines

theorem reference_redirect {defInfo : InternalSymDefInfo} {redirect : Redirect}
    (hplacement : defInfo.placement = .redirect redirect) :
    reference db defInfo = {
      defines := if defInfo.name = [] then none else canonicalTarget db defInfo.name
      mentions := mentioned db redirect } := by
  unfold reference
  rw [hplacement]

/-- A definition that does not mention its own symbol resolves it. -/
theorem updateEntry_resolved {entry : Entry}
    (hself : ∀ id, (reference db entry.2).defines = some id → id ∉ (reference db entry.2).mentions)
    (h : updateEntry db resolutions entry = .ok resolutions') : Resolved db entry resolutions' := by
  intro redirect hplacement hname
  have hreference : reference db entry.2 = _ := reference_redirect hplacement
  rw [if_neg hname] at hreference
  obtain ⟨hempty, -, rfl⟩ | ⟨redirect', id, value, hplacement', hdefines, htarget, hvalue, rfl⟩ :=
    updateEntry_cases h
  · exact absurd (hempty redirect hplacement) hname
  · obtain rfl : redirect = redirect' :=
      SymbolPlacement.redirect.inj (hplacement.symm.trans hplacement')
    refine ⟨id, value, htarget, Function.update_self .., ?_⟩
    rw [← hvalue]
    refine redirectValue_congr fun other hother => Function.update_of_ne (fun heq => ?_) _ _
    refine hself id hdefines ?_
    rw [hreference]
    exact heq ▸ hother

/-- A later definition that does not affect a definition leaves it resolved. -/
theorem updateEntry_keeps {entry later : Entry}
    (hunaffected : Unaffected (reference db entry.2) (reference db later.2))
    (h : updateEntry db resolutions later = .ok resolutions')
    (hresolved : Resolved db entry resolutions) : Resolved db entry resolutions' := by
  intro redirect hplacement hname
  obtain ⟨id, value, htarget, hid, hvalue⟩ := hresolved redirect hplacement hname
  have hreference : reference db entry.2 = _ := reference_redirect hplacement
  rw [if_neg hname, htarget] at hreference
  have hne : (reference db later.2).defines ≠ some id :=
    fun hlater => (hunaffected id id (by rw [hreference]) hlater).1 rfl
  refine ⟨id, value, htarget, (updateEntry_of_ne h hne).trans hid, ?_⟩
  rw [← hvalue]
  refine redirectValue_congr fun other hother => updateEntry_of_ne h fun hlater => ?_
  refine (hunaffected id other (by rw [hreference]) hlater).2 ?_
  rw [hreference]
  exact hother

end Step

/-! ### All definitions -/

/-- Definitions that are in order are all resolved. -/
theorem updateRedirectResolutions_resolved {db : SymbolDb} {layout : FinalLayout}
    {resolutions final : Resolutions} (horder : InOrder (referenceGraph db))
    (h : updateRedirectResolutions db layout resolutions = .ok final) :
    ∀ entry ∈ entries db layout, Resolved db entry final := by
  obtain ⟨hself, hpairwise⟩ := horder
  rw [referenceGraph, ← entries_map db layout, List.map_map] at hself hpairwise
  rw [updateRedirectResolutions_eq] at h
  refine Fallible.foldlM_establishes (Resolved db) h (fun entry hentry s s' hstep => ?_) ?_
  · exact updateEntry_resolved (hself _ (List.mem_map_of_mem hentry)) hstep
  · exact (List.pairwise_map.mp hpairwise).imp fun hunaffected s s' => updateEntry_keeps hunaffected

end JdxLinker.Script
