import JdxLinker.Wasm.Linking.FunctionSpace

/-!
# Imports that stay

Every import that stays unresolved gets the index of an import of the output with its module, its
name and its type. The output has one import for each module and name that some object needs.
-/

namespace JdxLinker.Wasm.Linking

open Fallible Interning

section

variable {τ : Type} {same : τ → τ → Bool}

def SharedImport.key (import' : SharedImport τ) : String × String := (import'.module, import'.name)

theorem findOrAddShared_eq_ok {shared shared' : List (SharedImport τ)} {import' : SharedImport τ}
    {i : Nat} (hrefl : ∀ t, same t t = true)
    (h : findOrAddShared same shared import' = .ok (shared', i)) :
    intern SharedImport.key shared import' = (i, shared') ∧
      ∃ b, shared'[i]? = some b ∧ b.key = import'.key ∧ same b.ty import'.ty = true := by
  have hfind : (shared.findIdx? fun other =>
        other.module = import'.module && other.name = import'.name)
      = shared.findIdx? fun other => other.key = import'.key := by
    congr 1
    funext other
    simp [SharedImport.key]
  rw [findOrAddShared, hfind] at h
  rw [intern]
  cases hindex : shared.findIdx? fun other => other.key = import'.key with
  | none =>
      rw [hindex] at h
      cases h
      exact ⟨rfl, import', List.getElem?_concat_length .., rfl, hrefl _⟩
  | some k =>
      rw [hindex] at h
      obtain ⟨existing, hexisting, h⟩ := bind_eq_ok.mp h
      obtain ⟨_, hsame, h⟩ := bind_eq_ok.mp h
      cases h
      obtain ⟨hlt, hkey, -⟩ := List.findIdx?_eq_some_iff_getElem.mp hindex
      have hget := unwrap_eq_ok.mp hexisting
      refine ⟨rfl, existing, hget, ?_, ensure_eq_ok.mp hsame⟩
      rw [List.getElem?_eq_getElem hlt] at hget
      rw [← Option.some.inj hget]
      exact of_decide_eq_true hkey

/-- The index of a slot leads to its import, if the slot stays. -/
def SlotShared (same : τ → τ → Bool) (shared : List (SharedImport τ))
    (slot : Fallible (Option (SharedImport τ))) (index : Option Nat) : Prop :=
  ∃ contents, slot = .ok contents ∧ ∀ import', contents = some import' →
    ∃ k b, index = some k ∧ shared[k]? = some b ∧ b.key = import'.key ∧
      same b.ty import'.ty = true

theorem SlotShared.mono {shared shared' : List (SharedImport τ)} (h : shared <+: shared')
    {slot : Fallible (Option (SharedImport τ))} {index : Option Nat}
    (hslot : SlotShared same shared slot index) : SlotShared same shared' slot index := by
  obtain ⟨contents, hcontents, hslot⟩ := hslot
  refine ⟨contents, hcontents, fun import' heq => ?_⟩
  obtain ⟨k, b, hindex, hget, hkey, hsame⟩ := hslot import' heq
  exact ⟨k, b, hindex, getElem?_of_grows h hget, hkey, hsame⟩

/-- What sharing the imports of some slots does to the imports that are shared so far. -/
structure Grows (slots : List (Fallible (Option (SharedImport τ))))
    (shared shared' : List (SharedImport τ)) : Prop where
  le : shared <+: shared'
  nodup : (shared.map (·.key)).Nodup → (shared'.map (·.key)).Nodup
  origin : ∀ b ∈ shared', b ∈ shared ∨ .ok (some b) ∈ slots

theorem Grows.trans {slots slots' : List (Fallible (Option (SharedImport τ)))}
    {shared shared' shared'' : List (SharedImport τ)} (h : Grows slots shared shared')
    (h' : Grows slots' shared' shared'') : Grows (slots ++ slots') shared shared'' := by
  refine ⟨h.le.trans h'.le, fun hnodup => h'.nodup (h.nodup hnodup), fun b hb => ?_⟩
  rcases h'.origin b hb with hb | hslot
  · exact (h.origin b hb).imp_right (List.mem_append_left _)
  · exact .inr (List.mem_append_right _ hslot)

theorem shareSlot_eq_ok (hrefl : ∀ t, same t t = true) {shared shared' : List (SharedImport τ)}
    {slot : Option (SharedImport τ)} {index : Option Nat}
    (h : shareSlot same shared slot = .ok (shared', index)) :
    Grows [.ok slot] shared shared' ∧ SlotShared same shared' (.ok slot) index := by
  cases slot with
  | none =>
      cases h
      refine ⟨⟨List.prefix_rfl, id, fun b hb => .inl hb⟩, none, rfl, fun import' heq => ?_⟩
      cases heq
  | some import' =>
      obtain ⟨⟨added, i⟩, hadd, h⟩ := bind_eq_ok.mp h
      cases h
      obtain ⟨hintern, hentry⟩ := findOrAddShared_eq_ok hrefl hadd
      have hadded : (intern SharedImport.key shared import').2 = shared' := by rw [hintern]
      rw [← hadded] at hentry ⊢
      refine ⟨⟨intern_grows _ _ _, fun hnodup => nodup_intern _ hnodup _, fun b hb => ?_⟩, ?_⟩
      · rcases mem_intern _ hb with hb | rfl
        · exact .inl hb
        · exact .inr List.mem_cons_self
      · refine ⟨some import', rfl, fun _ heq => ?_⟩
        cases heq
        obtain ⟨b, hget, hkey, hsame⟩ := hentry
        exact ⟨i, b, rfl, hget, hkey, hsame⟩

theorem shareSlots_eq_ok (hrefl : ∀ t, same t t = true) {shared shared' : List (SharedImport τ)}
    {slots : List (Fallible (Option (SharedImport τ)))} {indices : List (Option Nat)}
    (h : shareSlots same shared slots = .ok (shared', indices)) :
    Grows slots shared shared' ∧ List.Forall₂ (SlotShared same shared') slots indices := by
  induction slots generalizing shared indices with
  | nil =>
      cases h
      exact ⟨⟨List.prefix_rfl, id, fun b hb => .inl hb⟩, .nil⟩
  | cons slot slots ih =>
      rw [shareSlots] at h
      obtain ⟨import', hslot, h⟩ := bind_eq_ok.mp h
      obtain ⟨⟨added, index⟩, hadd, h⟩ := bind_eq_ok.mp h
      obtain ⟨⟨final, rest⟩, hrest, h⟩ := bind_eq_ok.mp h
      cases h
      obtain ⟨hgrows, hindex⟩ := shareSlot_eq_ok hrefl hadd
      obtain ⟨hgrowsRest, hall⟩ := ih hrest
      rw [← hslot] at hgrows hindex
      exact ⟨hgrows.trans hgrowsRest, .cons (hindex.mono hgrowsRest.le) hall⟩

theorem shareObjects_eq_ok (hrefl : ∀ t, same t t = true) {shared shared' : List (SharedImport τ)}
    {objects : List (List (Fallible (Option (SharedImport τ))))}
    {indices : List (List (Option Nat))}
    (h : shareObjects same shared objects = .ok (shared', indices)) :
    Grows objects.flatten shared shared' ∧
      List.Forall₂ (List.Forall₂ (SlotShared same shared')) objects indices := by
  induction objects generalizing shared indices with
  | nil =>
      cases h
      exact ⟨⟨List.prefix_rfl, id, fun b hb => .inl hb⟩, .nil⟩
  | cons slots objects ih =>
      rw [shareObjects] at h
      obtain ⟨⟨added, first⟩, hadd, h⟩ := bind_eq_ok.mp h
      obtain ⟨⟨final, rest⟩, hrest, h⟩ := bind_eq_ok.mp h
      cases h
      obtain ⟨hgrows, hfirst⟩ := shareSlots_eq_ok hrefl hadd
      obtain ⟨hgrowsRest, hall⟩ := ih hrest
      exact ⟨hgrows.trans hgrowsRest, .cons (hfirst.imp fun _ _ => .mono hgrowsRest.le) hall⟩

end

/-! ### Functions -/

/-- An import slot of an object that nothing resolved. -/
structure StaysUnresolved (input : WasmObjectLayoutInput) (resolutions : List ImportResolution)
    (i : Nat) : Prop where
  live : isLive input.liveFunctionImports i = true
  unresolved : resolutions[i]? = some .unresolved

theorem functionSlot_eq {input : WasmObjectLayoutInput} {resolutions : List ImportResolution}
    {o i : Nat} {import' : WasmFunctionImport} {slot : SharedImport FunctionTypeRef} :
    functionSlot input resolutions o (import', i) = .ok (some slot) ↔
      StaysUnresolved input resolutions i ∧ ∃ ty, input.types[import'.typeIndex]? = some ty ∧
        slot = ⟨import'.module, import'.name, o, import'.typeIndex, ty⟩ := by
  rw [functionSlot]
  split
  case isTrue hstays =>
      rw [Bool.and_eq_true, decide_eq_true_eq] at hstays
      constructor
      · intro h
        obtain ⟨ty, hty, h⟩ := bind_eq_ok.mp h
        cases h
        exact ⟨⟨hstays.1, hstays.2⟩, ty, context_eq_ok.mp hty, rfl⟩
      · rintro ⟨-, ty, hty, rfl⟩
        rw [hty]
        rfl
  case isFalse hstays =>
      rw [Bool.and_eq_true, decide_eq_true_eq] at hstays
      constructor
      · intro h
        cases h
      · rintro ⟨⟨hlive, hunresolved⟩, -⟩
        exact absurd ⟨hlive, hunresolved⟩ hstays

/-- Where collecting the slots succeeds, those that stay have a type. -/
theorem functionSlot_ty {input : WasmObjectLayoutInput} {resolutions : List ImportResolution}
    {o i : Nat} {import' : WasmFunctionImport} {contents : Option (SharedImport FunctionTypeRef)}
    (hstays : StaysUnresolved input resolutions i)
    (h : functionSlot input resolutions o (import', i) = .ok contents) :
    ∃ ty, input.types[import'.typeIndex]? = some ty := by
  rw [functionSlot, if_pos (by simp [hstays.live, hstays.unresolved])] at h
  obtain ⟨ty, hty, -⟩ := bind_eq_ok.mp h
  exact ⟨ty, context_eq_ok.mp hty⟩

/-- The function slots of the objects. -/
def functionSlots (resolutions : List ObjectImportResolutions) : List (List ImportResolution) :=
  resolutions.map (·.functionResolutions)

/-- The functions that stay imported, and the slots that lead to them. -/
structure FunctionsShared (inputs : List WasmObjectLayoutInput) (slots : List (List ImportResolution))
    (shared : SharedUnresolvedImports) : Prop where
  nodup : (shared.functions.map (·.key)).Nodup
  slot {o i : Nat} {input : WasmObjectLayoutInput} {resolutions : List ImportResolution}
      {import' : WasmFunctionImport} (hinput : inputs[o]? = some input)
      (hslots : slots[o]? = some resolutions) (himport : input.functionImports[i]? = some import')
      (hstays : StaysUnresolved input resolutions i) :
    ∃ k b, shared.functionIndex o i = some k ∧ shared.functions[k]? = some b ∧
      b.module = import'.module ∧ b.name = import'.name ∧
      input.types[import'.typeIndex]? = some b.ty.ty
  origin {b : SharedImport FunctionTypeRef} (hb : b ∈ shared.functions) :
    ∃ o input resolutions i import', inputs[o]? = some input ∧ slots[o]? = some resolutions ∧
      input.functionImports[i]? = some import' ∧ StaysUnresolved input resolutions i ∧
      b = ⟨import'.module, import'.name, o, import'.typeIndex, b.ty.ty⟩ ∧
      input.types[import'.typeIndex]? = some b.ty.ty

theorem collectSharedUnresolvedImports_functions {inputs : List WasmObjectLayoutInput}
    {resolutions : List ObjectImportResolutions} {shared : SharedUnresolvedImports}
    (h : collectSharedUnresolvedImports inputs resolutions = .ok shared) :
    FunctionsShared inputs (functionSlots resolutions) shared := by
  obtain ⟨⟨functions, functionIndices⟩, hfunctions, h⟩ := bind_eq_ok.mp h
  obtain ⟨⟨globals, globalIndices⟩, -, h⟩ := bind_eq_ok.mp h
  cases h
  obtain ⟨hgrows, hall⟩ := shareObjects_eq_ok (by simp) hfunctions
  refine ⟨hgrows.nodup List.nodup_nil, ?_, ?_⟩
  · intro o i input resolutions' import' hinput hslots himport hstays
    rw [functionSlots, List.getElem?_map] at hslots
    obtain ⟨object, hobject, rfl⟩ := Option.map_eq_some_iff.mp hslots
    have hzip : (inputs.zip resolutions)[o]? = some (input, object) :=
      List.getElem?_zip_eq_some.mpr ⟨hinput, hobject⟩
    have hitem : ((inputs.zip resolutions).zipIdx)[o]? = some ((input, object), o) := by
      rw [List.getElem?_zipIdx, hzip, Option.map_some, Nat.zero_add]
    have hobjectSlots := (List.getElem?_map (f := fun item : (WasmObjectLayoutInput ×
      ObjectImportResolutions) × Nat => item.1.1.functionImports.zipIdx.map
        (functionSlot item.1.1 item.1.2.functionResolutions item.2))).trans (congrArg _ hitem)
    obtain ⟨indices, hindices, hall⟩ := Lists.exists_getElem?_of_forall₂ hall hobjectSlots
    have hslot : (input.functionImports.zipIdx.map
        (functionSlot input object.functionResolutions o))[i]?
        = some (functionSlot input object.functionResolutions o (import', i)) := by
      rw [List.getElem?_map, List.getElem?_zipIdx, himport, Option.map_some, Option.map_some,
        Nat.zero_add]
    obtain ⟨index, hindex, hshared⟩ := Lists.exists_getElem?_of_forall₂ hall hslot
    obtain ⟨contents, hcontents, hshared⟩ := hshared
    obtain ⟨ty, hty⟩ := functionSlot_ty hstays hcontents
    have hfull := (functionSlot_eq (o := o)).mpr ⟨hstays, ty, hty, rfl⟩
    obtain ⟨k, b, rfl, hget, hkey, hsame⟩ :=
      hshared _ (Except.ok.inj (hcontents.symm.trans hfull))
    refine ⟨k, b, ?_, hget, congrArg Prod.fst hkey, congrArg Prod.snd hkey, ?_⟩
    · simp [SharedUnresolvedImports.functionIndex, hindices, hindex]
    · rw [hty, of_decide_eq_true hsame]
  · intro b hb
    rcases hgrows.origin b hb with hb | hslot
    · cases hb
    obtain ⟨slots, hslots, hslot⟩ := List.mem_flatten.mp hslot
    obtain ⟨⟨⟨input, object⟩, o⟩, hitem, rfl⟩ := List.mem_map.mp hslots
    obtain ⟨⟨import', i⟩, himport, hslot⟩ := List.mem_map.mp hslot
    obtain ⟨hstays, ty, hty, rfl⟩ := functionSlot_eq.mp hslot
    obtain ⟨hinput, hobject⟩ := List.getElem?_zip_eq_some.mp (List.mem_zipIdx_iff_getElem?.mp hitem)
    refine ⟨o, input, object.functionResolutions, i, import', hinput, ?_,
      List.mem_zipIdx_iff_getElem?.mp himport, hstays, rfl, hty⟩
    rw [functionSlots, List.getElem?_map]
    exact congrArg _ hobject

end JdxLinker.Wasm.Linking
