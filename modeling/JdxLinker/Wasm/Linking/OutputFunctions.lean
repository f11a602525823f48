import JdxLinker.Lib.Interning
import JdxLinker.Wasm.Linking.Link

/-!
# The functions of the output

The function index space of a module has its function imports first, and then the functions it
defines. Giving equal types one index leaves every function what it was.
-/

namespace JdxLinker.Wasm.Linking

open Fallible Interning

/-- What an index of the function space stands for. -/
inductive OutputFunction where
  | imported (module name : String) (ty : FuncType)
  | defined (ty : FuncType) (body : List UInt8)
  deriving DecidableEq, Repr

def OutputFunction.ty : OutputFunction → FuncType
  | imported _ _ ty => ty
  | defined ty _ => ty

/-- A function import, whose type is given by its index. -/
def OutputImport.function? (import' : OutputImport) : Option (String × String × Nat) :=
  match import'.entity with
  | .function typeIndex => some (import'.module, import'.name, typeIndex)
  | .global _ => none

namespace WasmLayout

def functionImports (layout : WasmLayout) : List (String × String × Nat) :=
  layout.imports.filterMap OutputImport.function?

/-- The function space, as readers of a module have it. -/
def function (layout : WasmLayout) (index : Nat) : Option OutputFunction :=
  match layout.functionImports[index]? with
  | some (module, name, typeIndex) =>
      layout.outputTypes[typeIndex]?.map fun ty => .imported module name ty
  | none => do
      let typeIndex ← layout.functionTypeIndices[index - layout.functionImports.length]?
      let ty ← layout.outputTypes[typeIndex]?
      let body ← layout.functionBodies[index - layout.functionImports.length]?
      some (.defined ty body)

variable {layout : WasmLayout}

theorem function_imported {index typeIndex : Nat} {module name : String} {ty : FuncType}
    (himport : layout.functionImports[index]? = some (module, name, typeIndex))
    (hty : layout.outputTypes[typeIndex]? = some ty) :
    layout.function index = some (.imported module name ty) := by
  rw [function, himport]
  simp only [hty, Option.map_some]

theorem function_defined {d typeIndex : Nat} {ty : FuncType} {body : List UInt8}
    (htype : layout.functionTypeIndices[d]? = some typeIndex)
    (hty : layout.outputTypes[typeIndex]? = some ty)
    (hbody : layout.functionBodies[d]? = some body) :
    layout.function (layout.functionImports.length + d) = some (.defined ty body) := by
  have himport : layout.functionImports[layout.functionImports.length + d]? = none :=
    List.getElem?_eq_none (Nat.le_add_right _ _)
  rw [function, himport]
  simp only [Nat.add_sub_cancel_left, htype, hty, hbody, Option.bind_eq_bind, Option.bind_some]

/-- A function is an import with its type, or one that the module defines. -/
theorem function_eq_some {index : Nat} {f : OutputFunction} (h : layout.function index = some f) :
    (∃ module name typeIndex ty, layout.functionImports[index]? = some (module, name, typeIndex) ∧
      layout.outputTypes[typeIndex]? = some ty ∧ f = .imported module name ty) ∨
    ∃ d typeIndex ty body, index = layout.functionImports.length + d ∧
      layout.functionTypeIndices[d]? = some typeIndex ∧ layout.outputTypes[typeIndex]? = some ty ∧
      layout.functionBodies[d]? = some body ∧ f = .defined ty body := by
  rw [function] at h
  split at h
  case h_1 module name typeIndex himport =>
      obtain ⟨ty, hty, rfl⟩ := Option.map_eq_some_iff.mp h
      exact .inl ⟨module, name, typeIndex, ty, himport, hty, rfl⟩
  case h_2 himport =>
      obtain ⟨typeIndex, htype, h⟩ := Option.bind_eq_some_iff.mp h
      obtain ⟨ty, hty, h⟩ := Option.bind_eq_some_iff.mp h
      obtain ⟨body, hbody, h⟩ := Option.bind_eq_some_iff.mp h
      have hle := List.getElem?_eq_none_iff.mp himport
      exact .inr ⟨_, typeIndex, ty, body, by omega, htype, hty, hbody, (Option.some.inj h).symm⟩

end WasmLayout

/-! ### Equal types -/

theorem ensureFuncType_eq (types : List FuncType) (ty : FuncType) :
    ensureFuncType types ty = intern id types ty := rfl

theorem ensureFuncTypes_eq (types tys : List FuncType) :
    ensureFuncTypes types tys = internAll id types tys := by
  induction tys generalizing types with
  | nil => rfl
  | cons ty tys ih => simp only [ensureFuncTypes, internAll, ensureFuncType_eq, ih]

theorem foldl_dedupType (types : List FuncType) (s : List FuncType × List Nat) :
    types.foldl dedupType s
      = ((internAll id s.1 types).2, s.2 ++ (internAll id s.1 types).1) := by
  induction types generalizing s with
  | nil => simp [internAll]
  | cons ty types ih =>
      rw [List.foldl_cons, ih]
      simp [dedupType, internAll, ensureFuncType_eq]

/-- Types keep their meaning where they are given other indexes. -/
def KeepsTypes (types types' : List FuncType) (remap : Nat → Fallible Nat) : Prop :=
  ∀ t ty t', types[t]? = some ty → remap t = .ok t' → types'[t']? = some ty

theorem keepsTypes_internAll (types : List FuncType) :
    KeepsTypes types (internAll id [] types).2
      fun index => unwrap (internAll id [] types).1[index]? := by
  intro t ty t' hty ht'
  obtain ⟨k, b, hk, hb, rfl⟩ := internAll_getElem? id [] hty
  obtain rfl : t' = k := Option.some.inj ((unwrap_eq_ok.mp ht').symm.trans hk)
  exact hb

theorem remapImport_eq_ok {remap : Nat → Fallible Nat} {import' renamed : OutputImport}
    (h : remapImport remap import' = .ok renamed) :
    (import'.function? = none ∧ renamed.function? = none) ∨
      ∃ module name t t', import'.function? = some (module, name, t) ∧ remap t = .ok t' ∧
        renamed.function? = some (module, name, t') := by
  obtain ⟨module, name, entity⟩ := import'
  cases entity with
  | function t =>
      obtain ⟨t', ht', h⟩ := bind_eq_ok.mp h
      cases h
      exact .inr ⟨module, name, t, t', rfl, ht', rfl⟩
  | global ty =>
      cases h
      exact .inl ⟨rfl, rfl⟩

/-- The function imports keep their order. -/
theorem functionImports_remap {remap : Nat → Fallible Nat} {imports imports' : List OutputImport}
    (h : imports.mapM (remapImport remap) = .ok imports') :
    List.Forall₂ (fun a b => a.1 = b.1 ∧ a.2.1 = b.2.1 ∧ remap a.2.2 = .ok b.2.2)
      (imports.filterMap OutputImport.function?) (imports'.filterMap OutputImport.function?) := by
  have hall := mapM_eq_ok h
  clear h
  induction hall with
  | nil => exact .nil
  | cons hstep _ ih =>
      rcases remapImport_eq_ok hstep with ⟨hnone, hnone'⟩ | ⟨module, name, t, t', hsome, ht, hsome'⟩
      · rwa [List.filterMap_cons_none hnone, List.filterMap_cons_none hnone']
      · rw [List.filterMap_cons_some hsome, List.filterMap_cons_some hsome']
        exact .cons ⟨rfl, rfl, ht⟩ ih

/-- Every function stays what it was when the types get other indexes. -/
theorem function_remap (layout layout' : WasmLayout) {remap : Nat → Fallible Nat}
    (htypes : KeepsTypes layout.outputTypes layout'.outputTypes remap)
    (hfunctions : layout.functionTypeIndices.mapM remap = .ok layout'.functionTypeIndices)
    (himports : layout.imports.mapM (remapImport remap) = .ok layout'.imports)
    (hbodies : layout'.functionBodies = layout.functionBodies) {index : Nat} {f : OutputFunction}
    (h : layout.function index = some f) : layout'.function index = some f := by
  have hall := functionImports_remap himports
  rcases WasmLayout.function_eq_some h with
    ⟨module, name, t, ty, himport, hty, rfl⟩ | ⟨d, t, ty, body, rfl, ht, hty, hbody, rfl⟩
  · obtain ⟨⟨module', name', t'⟩, himport', rfl, rfl, ht'⟩ :=
      Lists.exists_getElem?_of_forall₂ hall himport
    exact WasmLayout.function_imported himport' (htypes t ty t' hty ht')
  · obtain ⟨t', ht', hremap⟩ := mapM_getElem? hfunctions ht
    have hlength : layout.functionImports.length = layout'.functionImports.length := hall.length_eq
    rw [hlength]
    exact WasmLayout.function_defined ht' (htypes t ty t' hty hremap) (by rwa [hbodies])

theorem remapImport_ok (import' : OutputImport) : remapImport Except.ok import' = .ok import' := by
  obtain ⟨module, name, entity⟩ := import'
  cases entity <;> rfl

/-- What collapsing equal types leaves of a layout. -/
structure Deduplicated (layout layout' : WasmLayout) : Prop where
  types_nodup : layout'.outputTypes.Nodup
  function {index : Nat} {f : OutputFunction} (h : layout.function index = some f) :
    layout'.function index = some f
  imports_length : layout'.functionImports.length = layout.functionImports.length
  maps : List.Forall₂ (fun map map' => ∃ typeIndices, map' = { map with typeIndices })
    layout.objectIndexMaps layout'.objectIndexMaps
  functionBodies : layout'.functionBodies = layout.functionBodies
  exports : layout'.exports = layout.exports
  globals : layout'.globals = layout.globals

theorem mapsKept_refl (maps : List WasmObjectIndexMap) :
    List.Forall₂ (fun map map' => ∃ typeIndices, map' = { map with typeIndices }) maps maps :=
  List.forall₂_same.mpr fun map _ => ⟨map.typeIndices, rfl⟩

theorem deduplicateOutputTypes_eq_ok {layout layout' : WasmLayout}
    (h : deduplicateOutputTypes layout = .ok layout') : Deduplicated layout layout' := by
  rw [deduplicateOutputTypes] at h
  split at h
  case isTrue hempty =>
      cases h
      exact ⟨by rw [hempty]; exact List.nodup_nil, id, rfl, mapsKept_refl _, rfl, rfl, rfl⟩
  case isFalse =>
      simp only [foldl_dedupType, List.nil_append] at h
      have hnodup : (internAll id [] layout.outputTypes).2.Nodup := by
        have hnil : (([] : List FuncType).map id).Nodup := List.nodup_nil
        have := nodup_internAll id hnil layout.outputTypes
        rwa [List.map_id] at this
      have hkeeps := keepsTypes_internAll layout.outputTypes
      split at h
      case isTrue hrange =>
          cases h
          have hsame : KeepsTypes layout.outputTypes (internAll id [] layout.outputTypes).2 .ok := by
            intro t ty t' hty ht'
            cases ht'
            refine hkeeps t ty t hty (unwrap_eq_ok.mpr ?_)
            have hlt := (List.getElem?_eq_some_iff.mp hty).1
            rw [hrange, List.getElem?_range (by rwa [internAll_length])]
          have hfunctions : layout.functionTypeIndices.mapM Except.ok
              = (.ok layout.functionTypeIndices : Fallible _) := by
            rw [mapM_eq_ok_map (f := .ok) (g := id) fun _ _ => rfl, List.map_id]
          have himports : layout.imports.mapM (remapImport .ok) = .ok layout.imports := by
            rw [mapM_eq_ok_map (g := id) fun import' _ => remapImport_ok import', List.map_id]
          refine ⟨hnodup, fun hf => ?_, rfl, mapsKept_refl _, rfl, rfl, rfl⟩
          exact function_remap layout _ hsame (by exact hfunctions) (by exact himports) (by rfl) hf
      case isFalse =>
          obtain ⟨functionTypeIndices, hfunctions, h⟩ := bind_eq_ok.mp h
          obtain ⟨imports, himports, h⟩ := bind_eq_ok.mp h
          obtain ⟨objectIndexMaps, hmaps, h⟩ := bind_eq_ok.mp h
          cases h
          refine ⟨hnodup, fun hf => ?_, (functionImports_remap himports).length_eq.symm,
            (mapM_eq_ok hmaps).imp fun map map' hmap => ?_, rfl, rfl, rfl⟩
          · exact function_remap layout _ hkeeps hfunctions himports (by rfl) hf
          · obtain ⟨typeIndices, -, hmap⟩ := bind_eq_ok.mp hmap
            exact ⟨typeIndices, (Except.ok.inj hmap).symm⟩

end JdxLinker.Wasm.Linking
