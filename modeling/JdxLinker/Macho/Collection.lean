import JdxLinker.Macho.Pairing
import Mathlib

/-!
# The collected fixups and the stored pointers

A fixup tells the dynamic linker to rewrite a pointer, so the collector has to find exactly the
pointers that the writer stored. It does unless a pointer lies outside of the writable segments,
which it passes over, or a minuend stands behind an addend, which it takes for a pointer.
-/

namespace JdxLinker.Macho

open JdxLinker.Bytes MachOLayout

/-- The 8-byte word at an offset of the bytes of a section. -/
def pointerAt (out : Bytes) (offset : Nat) : UInt64 := UInt64.ofNat (readLe (slice out offset 8))

/-- A fixup makes the dynamic linker store a value for a symbol: it rebases the value itself, or it
binds the import of the symbol with the addend that the value has over it. -/
def TargetMeans (layout : MachOLayout) (resolution : Resolution) (symbolId : SymbolId)
    (value : UInt64) : ChainedFixupTarget → Prop
  | .rebase target => resolution.flags.dynamic = false ∧ target = value
  | .bind ordinal addend => resolution.flags.dynamic = true
      ∧ (∃ index imported, ordinal = UInt32.ofNat index
        ∧ layout.formatSpecific.importedSymbols[index]? = some imported
        ∧ layout.db.definition imported.symbolId = layout.db.definition symbolId)
      ∧ value = resolution.rawValue + addend.toUInt64

/-- A fixup is at the place of a relocation and stands for the pointer with a value there. -/
structure FixupMeans (layout : MachOLayout) (object : ObjectLayout) (sectionAddress : UInt64)
    (rel : RelocationInfo) (value : UInt64) (fixup : ChainedFixup) : Prop where
  address : fixup.address = sectionAddress + rel.rAddress.toUInt64
  location : layout.fixupLocation fixup.address = some (fixup.segmentIndex, fixup.fileOffset)
  target : ∃ resolution symbolId, layout.getResolution object rel = .ok (resolution, symbolId)
    ∧ TargetMeans layout resolution symbolId value fixup.target

/-- The bytes of a section are in the output where its addresses are mapped from. -/
def Placed (layout : MachOLayout) (sectionAddress : UInt64) (out output : Bytes) : Prop :=
  ∀ offset : UInt32, offset.toNat + 8 ≤ out.length → ∀ segmentIndex fileOffset,
    layout.fixupLocation (sectionAddress + offset.toUInt64) = some (segmentIndex, fileOffset) →
    slice output fileOffset 8 = slice out offset.toNat 8

/-- A relocation for an absolute pointer at a place that can have a fixup. -/
def fixable (layout : MachOLayout) (sec : ObjectSection) (sectionAddress : UInt64)
    (rel : RelocationInfo) : Bool :=
  storesPointer sec rel
    && (layout.fixupLocation (sectionAddress + rel.rAddress.toUInt64)).isSome

variable {layout : MachOLayout} {applyInstruction : ApplyInstruction} {object : ObjectLayout}
  {sec : ObjectSection} {sectionAddress : UInt64}

/-! ### The walk of the writer -/

/-- What a turn of the writer does: it notes an addend or a subtrahend, it stores a difference, or it
applies a relocation on its own. -/
theorem writeRelocation_cases {writer next : RelocationWriter} {rel : RelocationInfo}
    (h : layout.writeRelocation applyInstruction object sec sectionAddress writer rel = .ok next) :
    (rel.rType = .addend ∧ writer.pendingAddend = none
      ∧ ∃ addend, next = { writer with pendingAddend := some addend })
    ∨ (rel.rType = .subtractor ∧ writer.pendingSubtractor = none
      ∧ next = { writer with pendingSubtractor := some rel })
    ∨ (rel.rType ≠ .addend ∧ rel.rType ≠ .subtractor ∧ ∃ subtractor out,
      writer.pendingSubtractor = some subtractor
      ∧ layout.applySubtractorPair object subtractor rel writer.out = .ok out
      ∧ next = { writer with out, pendingSubtractor := none })
    ∨ (rel.rType ≠ .addend ∧ rel.rType ≠ .subtractor ∧ writer.pendingSubtractor = none
      ∧ layout.applyRelocation applyInstruction object sec sectionAddress rel
        (writer.pendingAddend.getD 0) { writer with pendingAddend := none } = .ok next) := by
  unfold writeRelocation at h
  split at h
  · rename_i hadd
    obtain ⟨⟨⟩, hnone, h⟩ := Fallible.bind_eq_ok.mp h
    cases h
    exact Or.inl ⟨hadd, Fallible.ensure_eq_ok.mp hnone, _, rfl⟩
  · rename_i hadd
    split at h
    · rename_i hsub
      obtain ⟨⟨⟩, hnone, h⟩ := Fallible.bind_eq_ok.mp h
      cases h
      exact Or.inr (Or.inl ⟨hsub, Fallible.ensure_eq_ok.mp hnone, rfl⟩)
    · rename_i hsub
      split at h
      · rename_i subtractor hpending
        obtain ⟨out, hout, h⟩ := Fallible.bind_eq_ok.mp h
        cases h
        exact Or.inr (Or.inr (Or.inl ⟨hadd, hsub, subtractor, out, hpending, hout, rfl⟩))
      · rename_i hpending
        exact Or.inr (Or.inr (Or.inr ⟨hadd, hsub, hpending, h⟩))

/-- Applying a relocation notes it if it stored an absolute pointer. -/
theorem applyRelocation_eq_ok {writer next : RelocationWriter} {rel : RelocationInfo} {addend : Int}
    (h : layout.applyRelocation applyInstruction object sec sectionAddress rel addend writer
      = .ok next) :
    next.pendingSubtractor = writer.pendingSubtractor
      ∧ next.pendingAddend = writer.pendingAddend
      ∧ next.pointers.map (·.rel)
        = writer.pointers.map (·.rel) ++ [rel].filter (storesPointer sec) := by
  unfold applyRelocation at h
  split at h
  · obtain ⟨⟨resolution, symbolId⟩, -, h⟩ := Fallible.bind_eq_ok.mp h
    obtain ⟨value, -, h⟩ := Fallible.bind_eq_ok.mp h
    obtain ⟨⟨⟩, -, h⟩ := Fallible.bind_eq_ok.mp h
    obtain ⟨⟨⟩, -, h⟩ := Fallible.bind_eq_ok.mp h
    cases h
    refine ⟨rfl, rfl, ?_⟩
    cases hstores : storesPointer sec rel <;> simp [hstores]
  · rename_i htype
    obtain ⟨out, -, h⟩ := Fallible.bind_eq_ok.mp h
    cases h
    have hstores : storesPointer sec rel = false := by simp [storesPointer, htype]
    exact ⟨rfl, rfl, by simp [hstores]⟩

/-- The writer stores pointers for the relocations that stand alone. -/
theorem writeRelocations_pointers {rels : List RelocationInfo} {writer result : RelocationWriter}
    (h : rels.foldlM (layout.writeRelocation applyInstruction object sec sectionAddress) writer
      = .ok result)
    (hsub : result.pendingSubtractor = none) (hadd : result.pendingAddend = none) :
    Accepted writer.pendingSubtractor.isSome writer.pendingAddend.isSome rels
      ∧ result.pointers.map (·.rel) = writer.pointers.map (·.rel)
        ++ (plainRelocations writer.pendingSubtractor.isSome rels).filter (storesPointer sec) := by
  induction rels generalizing writer with
  | nil =>
      cases h
      refine ⟨?_, (List.append_nil _).symm⟩
      rw [Accepted, hsub, hadd]
      exact ⟨rfl, rfl⟩
  | cons rel rels ih =>
      rw [List.foldlM_cons] at h
      obtain ⟨next, hnext, h⟩ := Fallible.bind_eq_ok.mp h
      obtain ⟨haccepted, hpointers⟩ := ih h
      rw [Accepted, plainRelocations, hpointers]
      rcases writeRelocation_cases hnext with ⟨htype, hnone, addend, rfl⟩ | ⟨htype, hnone, rfl⟩
        | ⟨htype, htype', subtractor, out, hpending, -, rfl⟩ | ⟨htype, htype', hpending, happly⟩
      · rw [if_pos htype, if_pos htype]
        exact ⟨⟨by rw [hnone]; rfl, haccepted⟩, rfl⟩
      · have hne : rel.rType ≠ .addend := by simp [htype]
        rw [if_neg hne, if_pos htype, if_neg hne, if_pos htype]
        exact ⟨⟨by rw [hnone]; rfl, haccepted⟩, rfl⟩
      · rw [if_neg htype, if_neg htype', if_neg htype, if_neg htype', hpending]
        exact ⟨haccepted, rfl⟩
      · obtain ⟨hsame, hsame', hmap⟩ := applyRelocation_eq_ok happly
        rw [hsame, hsame'] at haccepted
        rw [if_neg htype, if_neg htype', if_neg htype, if_neg htype', hpending, hmap, hsame]
        simp only [hpending] at haccepted ⊢
        refine ⟨haccepted, ?_⟩
        rw [List.append_assoc, ← List.filter_append]
        rfl

/-! ### The walk of the collector -/

theorem importOrdinalOf_eq_some {symbolId : SymbolId} {ordinal : UInt32}
    (h : layout.importOrdinalOf symbolId = some ordinal) :
    ∃ index imported, ordinal = UInt32.ofNat index
      ∧ layout.formatSpecific.importedSymbols[index]? = some imported
      ∧ layout.db.definition imported.symbolId = symbolId := by
  obtain ⟨⟨found, index⟩, hfind, rfl⟩ := Option.map_eq_some_iff.mp h
  have hfound : found = symbolId := by simpa using List.find?_some hfind
  have hmem := List.mem_reverse.mp (List.mem_of_find?_eq_some hfind)
  have hget := List.mem_zipIdx_iff_getElem?.mp hmem
  rw [List.getElem?_map] at hget
  obtain ⟨imported, himported, hdefinition⟩ := Option.map_eq_some_iff.mp hget
  exact ⟨index, imported, rfl, himported, hdefinition.trans hfound⟩

theorem fixupTarget_means {resolution : Resolution} {symbolId : SymbolId} {value : UInt64}
    {target : ChainedFixupTarget} (h : layout.fixupTarget resolution symbolId value = .ok target) :
    TargetMeans layout resolution symbolId value target := by
  unfold fixupTarget at h
  split at h
  · rename_i hdynamic
    obtain ⟨ordinal, hordinal, h⟩ := Fallible.bind_eq_ok.mp h
    obtain ⟨⟨⟩, haddend, h⟩ := Fallible.bind_eq_ok.mp h
    cases h
    have hbound : (value - resolution.rawValue).toNat ≤ 255 := Fallible.ensure_eq_ok.mp haddend
    refine ⟨hdynamic, importOrdinalOf_eq_some (Fallible.context_eq_ok.mp hordinal), ?_⟩
    have hsmall : (value - resolution.rawValue).toUInt8.toUInt64 = value - resolution.rawValue := by
      apply UInt64.toNat_inj.mp
      rw [UInt8.toNat_toUInt64, UInt64.toNat_toUInt8]
      omega
    rw [hsmall, add_sub_cancel]
  · rename_i hdynamic
    cases h
    exact ⟨by simpa using hdynamic, rfl⟩

/-- A fixup stands for the pointer that the output holds at its place. -/
def Collected (layout : MachOLayout) (object : ObjectLayout) (sectionAddress : UInt64)
    (output : Bytes) (rel : RelocationInfo) (fixup : ChainedFixup) : Prop :=
  FixupMeans layout object sectionAddress rel (pointerAt output fixup.fileOffset) fixup

/-- A turn of the collector adds a fixup exactly for a relocation that it looks at and that can have
one. -/
theorem collectRelocation_fixups {output : Bytes} {collector next : FixupCollector}
    {rel : RelocationInfo}
    (h : layout.collectRelocation object sec sectionAddress output collector rel = .ok next)
    (hsub : rel.rType ≠ .subtractor) (hpending : collector.pendingSubtractor = false)
    (hadd : rel.rType ≠ .addend) :
    next.pendingSubtractor = false ∧ ∃ new, next.fixups = collector.fixups ++ new
      ∧ List.Forall₂ (Collected layout object sectionAddress output)
        ([rel].filter (fixable layout sec sectionAddress)) new := by
  unfold collectRelocation at h
  rw [if_neg hsub, if_neg (by simp [hpending]), if_neg hadd] at h
  have hskip : fixable layout sec sectionAddress rel = false → next = collector →
      next.pendingSubtractor = false ∧ ∃ new, next.fixups = collector.fixups ++ new
        ∧ List.Forall₂ (Collected layout object sectionAddress output)
          ([rel].filter (fixable layout sec sectionAddress)) new := by
    rintro hnot rfl
    exact ⟨hpending, [], (List.append_nil _).symm, by simp [hnot]⟩
  split at h
  · rename_i hkind
    refine hskip ?_ (Except.ok.inj h).symm
    rcases hkind with hkind | hkind | hkind <;> simp [fixable, storesPointer, hkind]
  · rename_i hkind
    split at h
    · rename_i htls
      refine hskip ?_ (Except.ok.inj h).symm
      simp [fixable, storesPointer, htls]
    · rename_i htls
      dsimp only at h
      split at h
      · rename_i hlocation
        refine hskip ?_ (Except.ok.inj h).symm
        simp [fixable, hlocation]
      · rename_i segmentIndex fileOffset hlocation
        obtain ⟨⟨⟩, -, h⟩ := Fallible.bind_eq_ok.mp h
        obtain ⟨⟨resolution, symbolId⟩, hresolution, h⟩ := Fallible.bind_eq_ok.mp h
        obtain ⟨target, htarget, h⟩ := Fallible.bind_eq_ok.mp h
        cases h
        have hfixable : fixable layout sec sectionAddress rel = true := by
          push Not at hkind
          simp [fixable, storesPointer, hlocation, hkind, htls]
        refine ⟨hpending, _, rfl, ?_⟩
        rw [List.filter_cons_of_pos hfixable, List.filter_nil]
        refine .cons ⟨rfl, hlocation, resolution, symbolId, hresolution, ?_⟩ .nil
        exact fixupTarget_means htarget

theorem collectRelocations_fixups {output : Bytes} {rels : List RelocationInfo}
    {collector result : FixupCollector}
    (h : rels.foldlM (layout.collectRelocation object sec sectionAddress output) collector
      = .ok result) :
    ∃ new, result.fixups = collector.fixups ++ new
      ∧ List.Forall₂ (Collected layout object sectionAddress output)
        ((collectedRelocations collector.pendingSubtractor rels).filter
          (fixable layout sec sectionAddress)) new := by
  induction rels generalizing collector with
  | nil =>
      cases h
      exact ⟨[], (List.append_nil _).symm, .nil⟩
  | cons rel rels ih =>
      rw [List.foldlM_cons] at h
      obtain ⟨next, hnext, h⟩ := Fallible.bind_eq_ok.mp h
      obtain ⟨new, hnew, hmeans⟩ := ih h
      rw [collectedRelocations]
      by_cases hsub : rel.rType = .subtractor
      · rw [collectRelocation, if_pos hsub] at hnext
        cases hnext
        rw [if_pos hsub]
        exact ⟨new, hnew, hmeans⟩
      rw [if_neg hsub]
      by_cases hpending : collector.pendingSubtractor = true
      · rw [collectRelocation, if_neg hsub, if_pos hpending] at hnext
        cases hnext
        rw [if_pos hpending]
        exact ⟨new, hnew, hmeans⟩
      rw [if_neg hpending]
      by_cases hadd : rel.rType = .addend
      · rw [collectRelocation, if_neg hsub, if_neg hpending, if_pos hadd] at hnext
        cases hnext
        rw [if_pos hadd]
        rw [Bool.not_eq_true] at hpending
        rw [hpending] at hmeans
        exact ⟨new, hnew, hmeans⟩
      rw [if_neg hadd]
      rw [Bool.not_eq_true] at hpending
      obtain ⟨hnextPending, first, hfirst, hfirstMeans⟩ :=
        collectRelocation_fixups hnext hsub hpending hadd
      rw [hnextPending] at hmeans
      refine ⟨first ++ new, by rw [hnew, hfirst, List.append_assoc], ?_⟩
      rw [← List.singleton_append, List.filter_append]
      exact List.rel_append hfirstMeans hmeans

/-! ### The bytes that stay -/

/-- The bytes after a step differ from those before at the place of a relocation only. -/
def Patched (rel : RelocationInfo) (out out' : Bytes) : Prop :=
  out'.length = out.length ∧ ∀ i, i < rel.offset ∨ rel.offset + rel.size ≤ i → out'[i]? = out[i]?

/-- Patching an instruction changes no byte outside of the place of its relocation. -/
def LocalPatch (applyInstruction : ApplyInstruction) : Prop :=
  ∀ rel addend out out', applyInstruction rel addend out = .ok out' → Patched rel out out'

theorem Patched.refl (rel : RelocationInfo) (out : Bytes) : Patched rel out out :=
  ⟨rfl, fun _ _ => rfl⟩

theorem Patched.splice {rel : RelocationInfo} {out : Bytes} {value : Nat}
    (h : rel.offset + rel.size ≤ out.length) :
    Patched rel out (splice out rel.offset (leBytes rel.size value)) := by
  have hfits : rel.offset + (leBytes rel.size value).length ≤ out.length := by
    rwa [leBytes_length]
  refine ⟨splice_length hfits, fun i hi => ?_⟩
  rw [splice_getElem? hfits, leBytes_length, if_neg (by omega)]

theorem applySubtractorPair_patched {subtractor minuend : RelocationInfo} {out out' : Bytes}
    (h : layout.applySubtractorPair object subtractor minuend out = .ok out') :
    Patched minuend out out' := by
  obtain ⟨⟨⟩, -, h⟩ := Fallible.bind_eq_ok.mp h
  obtain ⟨subtrahend, -, h⟩ := Fallible.bind_eq_ok.mp h
  obtain ⟨minuendValue, -, h⟩ := Fallible.bind_eq_ok.mp h
  obtain ⟨⟨⟩, hfits, h⟩ := Fallible.bind_eq_ok.mp h
  obtain ⟨⟨⟩, -, h⟩ := Fallible.bind_eq_ok.mp h
  cases h
  exact .splice (Fallible.ensure_eq_ok.mp hfits)

theorem storesPointer_size {rel : RelocationInfo} (h : storesPointer sec rel = true) :
    rel.rType = .unsigned ∧ rel.size = 8 := by
  simp only [storesPointer, Bool.and_eq_true, beq_iff_eq] at h
  obtain ⟨⟨⟨htype, hlength⟩, -⟩, -⟩ := h
  refine ⟨htype, ?_⟩
  rw [RelocationInfo.size, hlength]
  rfl

theorem pointerAt_splice {out : Bytes} {offset : Nat} (value : UInt64)
    (h : offset + 8 ≤ out.length) :
    pointerAt (splice out offset (leBytes 8 value.toNat)) offset = value := by
  have hslice := slice_splice (show offset + (leBytes 8 value.toNat).length ≤ out.length by
    rwa [leBytes_length])
  rw [leBytes_length] at hslice
  unfold pointerAt
  rw [hslice, readLe_leBytes_of_lt value.toNat_lt, UInt64.ofNat_toNat]

/-- A stored pointer lies in the section, and right after its relocation is applied the section
holds its value. -/
theorem applyRelocation_patched (hlocal : LocalPatch applyInstruction)
    {writer next : RelocationWriter} {rel : RelocationInfo} {addend : Int}
    (h : layout.applyRelocation applyInstruction object sec sectionAddress rel addend writer
      = .ok next) :
    Patched rel writer.out next.out
      ∧ ∀ pointer ∈ next.pointers, pointer ∈ writer.pointers
        ∨ (pointer.rel = rel ∧ storesPointer sec rel = true
          ∧ rel.offset + 8 ≤ next.out.length
          ∧ pointerAt next.out rel.offset = pointer.value) := by
  unfold applyRelocation at h
  split at h
  · obtain ⟨⟨resolution, symbolId⟩, -, h⟩ := Fallible.bind_eq_ok.mp h
    obtain ⟨value, -, h⟩ := Fallible.bind_eq_ok.mp h
    obtain ⟨⟨⟩, -, h⟩ := Fallible.bind_eq_ok.mp h
    obtain ⟨⟨⟩, hfits, h⟩ := Fallible.bind_eq_ok.mp h
    cases h
    have hfits : rel.offset + rel.size ≤ writer.out.length := Fallible.ensure_eq_ok.mp hfits
    have hpatched : Patched rel writer.out
        (splice writer.out rel.offset (leBytes rel.size value.toNat)) := .splice hfits
    refine ⟨hpatched, fun pointer hpointer => ?_⟩
    dsimp only at hpointer ⊢
    split at hpointer
    · rename_i hstores
      rcases List.mem_append.mp hpointer with hold | hnew
      · exact Or.inl hold
      · obtain rfl := List.mem_singleton.mp hnew
        have hsize := (storesPointer_size hstores).2
        rw [hpatched.1]
        rw [hsize] at hfits ⊢
        exact Or.inr ⟨rfl, hstores, hfits, pointerAt_splice value hfits⟩
    · exact Or.inl hpointer
  · obtain ⟨out, hout, h⟩ := Fallible.bind_eq_ok.mp h
    cases h
    exact ⟨hlocal _ _ _ _ hout, fun pointer hpointer => Or.inl hpointer⟩

/-- The places of two relocations do not overlap. -/
def Apart (a b : RelocationInfo) : Prop :=
  a.offset + a.size ≤ b.offset ∨ b.offset + b.size ≤ a.offset

/-- Whether a relocation has a place that it patches. -/
def Patches (rel : RelocationInfo) : Prop := rel.rType ≠ .addend ∧ rel.rType ≠ .subtractor

theorem writeRelocation_patched (hlocal : LocalPatch applyInstruction)
    {writer next : RelocationWriter} {rel : RelocationInfo}
    (h : layout.writeRelocation applyInstruction object sec sectionAddress writer rel = .ok next) :
    Patched rel writer.out next.out ∧ (¬ Patches rel → next.out = writer.out)
      ∧ ∀ pointer ∈ next.pointers, pointer ∈ writer.pointers
        ∨ (pointer.rel = rel ∧ storesPointer sec rel = true
          ∧ rel.offset + 8 ≤ next.out.length
          ∧ pointerAt next.out rel.offset = pointer.value) := by
  rcases writeRelocation_cases h with ⟨-, -, addend, rfl⟩ | ⟨-, -, rfl⟩
    | ⟨htype, htype', subtractor, out, -, hout, rfl⟩ | ⟨htype, htype', -, happly⟩
  · exact ⟨.refl _ _, fun _ => rfl, fun pointer hpointer => Or.inl hpointer⟩
  · exact ⟨.refl _ _, fun _ => rfl, fun pointer hpointer => Or.inl hpointer⟩
  · exact ⟨applySubtractorPair_patched hout, fun hnot => absurd ⟨htype, htype'⟩ hnot,
      fun pointer hpointer => Or.inl hpointer⟩
  · obtain ⟨hpatched, hpointers⟩ := applyRelocation_patched hlocal happly
    exact ⟨hpatched, fun hnot => absurd ⟨htype, htype'⟩ hnot, hpointers⟩

/-- Every stored pointer lies in the section. -/
theorem writeRelocations_inside (hlocal : LocalPatch applyInstruction)
    {rels : List RelocationInfo} {writer result : RelocationWriter}
    (h : rels.foldlM (layout.writeRelocation applyInstruction object sec sectionAddress) writer
      = .ok result)
    (hinside : ∀ pointer ∈ writer.pointers, pointer.rel.offset + 8 ≤ writer.out.length) :
    ∀ pointer ∈ result.pointers, pointer.rel.offset + 8 ≤ result.out.length := by
  induction rels generalizing writer with
  | nil =>
      cases h
      exact hinside
  | cons rel rels ih =>
      rw [List.foldlM_cons] at h
      obtain ⟨next, hnext, h⟩ := Fallible.bind_eq_ok.mp h
      obtain ⟨hpatched, -, hpointers⟩ := writeRelocation_patched hlocal hnext
      refine ih h fun pointer hpointer => ?_
      rcases hpointers pointer hpointer with hold | ⟨rfl, -, hfits, -⟩
      · rw [hpatched.1]
        exact hinside pointer hold
      · exact hfits

/-- A pointer keeps its value through a relocation whose place is elsewhere. -/
theorem Patched.pointerAt {rel : RelocationInfo} {out out' : Bytes} (h : Patched rel out out')
    {pointer : RelocationInfo} (hsize : pointer.size = 8) (hapart : Apart pointer rel) :
    pointerAt out' pointer.offset = pointerAt out pointer.offset := by
  have hslice : slice out' pointer.offset 8 = slice out pointer.offset 8 := by
    apply slice_congr
    intro i hlow hhigh
    apply h.2
    rcases hapart with hapart | hapart
    · exact Or.inl (by omega)
    · exact Or.inr (by omega)
  rw [Macho.pointerAt, hslice]
  rfl

/-- Where no two places overlap, the section holds the stored pointers in the end. -/
theorem writeRelocations_values (hlocal : LocalPatch applyInstruction)
    {rels : List RelocationInfo} {writer result : RelocationWriter}
    (h : rels.foldlM (layout.writeRelocation applyInstruction object sec sectionAddress) writer
      = .ok result)
    (hapart : rels.Pairwise fun a b => Patches a → Patches b → Apart a b)
    (hvalues : ∀ pointer ∈ writer.pointers, storesPointer sec pointer.rel = true
      ∧ pointerAt writer.out pointer.rel.offset = pointer.value
      ∧ ∀ rel ∈ rels, Patches rel → Apart pointer.rel rel) :
    ∀ pointer ∈ result.pointers, pointerAt result.out pointer.rel.offset = pointer.value := by
  induction rels generalizing writer with
  | nil =>
      cases h
      exact fun pointer hpointer => (hvalues pointer hpointer).2.1
  | cons rel rels ih =>
      rw [List.foldlM_cons] at h
      obtain ⟨next, hnext, h⟩ := Fallible.bind_eq_ok.mp h
      obtain ⟨hpatched, hsame, hpointers⟩ := writeRelocation_patched hlocal hnext
      refine ih h hapart.of_cons fun pointer hpointer => ?_
      rcases hpointers pointer hpointer with hold | ⟨rfl, hstores, -, hvalue⟩
      · obtain ⟨hstores, hvalue, hrest⟩ := hvalues pointer hold
        refine ⟨hstores, ?_, fun rel hrel => hrest rel (List.mem_cons_of_mem _ hrel)⟩
        by_cases hpatches : Patches rel
        · rw [hpatched.pointerAt (storesPointer_size hstores).2
            (hrest rel List.mem_cons_self hpatches)]
          exact hvalue
        · rw [hsame hpatches]
          exact hvalue
      · have hpatches : Patches pointer.rel := by
          have htype := (storesPointer_size hstores).1
          constructor <;> simp [htype]
        exact ⟨hstores, hvalue,
          fun rel hrel => List.rel_of_pairwise_cons hapart hrel hpatches⟩

/-! ### Agreement -/

/-- When both walks succeed, the collected fixups are those of the stored pointers, in order,
exactly when every absolute pointer lies in a writable segment and no minuend stands behind an
addend at a place that could have a fixup. Where no two places overlap, the pointers are the values
that the relocations stand for. -/
theorem fixups_collected_iff (layout : MachOLayout) {applyInstruction : ApplyInstruction}
    (hlocal : LocalPatch applyInstruction) (object : ObjectLayout) (sectionNumber : Nat)
    (sec : ObjectSection) {sectionAddress : UInt64}
    (haddress : object.sectionResolutions[sectionNumber]? = some (some sectionAddress))
    {written : RelocationWriter} {output : Bytes} {fixups : List ChainedFixup}
    (hwrite : layout.writeObjectSection applyInstruction object sectionNumber sec = .ok written)
    (hplaced : Placed layout sectionAddress written.out output)
    (hcollect : layout.collectSectionChainedFixups object sectionNumber sec output = .ok fixups) :
    (List.Forall₂ (fun pointer fixup => FixupMeans layout object sectionAddress pointer.rel
        (pointerAt written.out pointer.rel.offset) fixup) written.pointers fixups
      ↔ (∀ rel ∈ plainRelocations false sec.relocations, storesPointer sec rel = true →
          (layout.fixupLocation (sectionAddress + rel.rAddress.toUInt64)).isSome = true)
        ∧ ¬ Swallows (fixable layout sec sectionAddress) sec.relocations)
    ∧ (sec.relocations.Pairwise (fun a b => Patches a → Patches b → Apart a b) →
        ∀ pointer ∈ written.pointers,
          pointerAt written.out pointer.rel.offset = pointer.value) := by
  obtain ⟨resolution, hresolution, hwrite⟩ := Fallible.bind_eq_ok.mp hwrite
  obtain ⟨address, hsame, hwrite⟩ := Fallible.bind_eq_ok.mp hwrite
  obtain ⟨writer, hrun, hwrite⟩ := Fallible.bind_eq_ok.mp hwrite
  obtain ⟨⟨⟩, hsub, hwrite⟩ := Fallible.bind_eq_ok.mp hwrite
  obtain ⟨⟨⟩, hadd, hwrite⟩ := Fallible.bind_eq_ok.mp hwrite
  obtain rfl : written = writer := (Except.ok.inj hwrite).symm
  rw [Fallible.unwrap_eq_ok, haddress] at hresolution
  obtain rfl := Option.some.inj hresolution
  rw [Fallible.context_eq_ok] at hsame
  obtain rfl := Option.some.inj hsame
  obtain ⟨haccepted, hpointers⟩ := writeRelocations_pointers hrun
    (Fallible.ensure_eq_ok.mp hsub) (Fallible.ensure_eq_ok.mp hadd)
  have hinside := writeRelocations_inside hlocal hrun (by simp)
  obtain ⟨found, hfound, hcollect⟩ := Fallible.bind_eq_ok.mp hcollect
  rw [Fallible.unwrap_eq_ok, haddress] at hfound
  obtain rfl := Option.some.inj hfound
  obtain ⟨collector, hcollected, hcollect⟩ := Fallible.bind_eq_ok.mp hcollect
  obtain rfl := Except.ok.inj hcollect
  obtain ⟨new, hnew, hmeans⟩ := collectRelocations_fixups hcollected
  rw [List.nil_append] at hnew
  rw [← hnew] at hmeans
  obtain ⟨hagree, hmore⟩ :=
    collected_agree (fixable layout sec sectionAddress) sec.relocations haccepted
  have hplain : written.pointers.map (·.rel)
      = (plainRelocations false sec.relocations).filter (storesPointer sec) := hpointers
  have hfilter : (∀ rel ∈ plainRelocations false sec.relocations, storesPointer sec rel = true →
      (layout.fixupLocation (sectionAddress + rel.rAddress.toUInt64)).isSome = true) →
      (plainRelocations false sec.relocations).filter (fixable layout sec sectionAddress)
        = written.pointers.map (·.rel) := by
    intro hlocated
    rw [hplain]
    apply List.filter_congr
    intro rel hrel
    cases hstores : storesPointer sec rel with
    | true => simp [fixable, hstores, hlocated rel hrel hstores]
    | false => simp [fixable, hstores]
  constructor
  · constructor
    · intro hall
      have hplaces : ∀ pointer ∈ written.pointers, (layout.fixupLocation
          (sectionAddress + pointer.rel.rAddress.toUInt64)).isSome = true := by
        refine ((List.forall₂_and_left _ _).mp
          (hall.imp fun pointer fixup hfixup => ⟨?_, hfixup⟩)).1
        rw [← hfixup.address, hfixup.location]
        rfl
      have hlocated : ∀ rel ∈ plainRelocations false sec.relocations,
          storesPointer sec rel = true →
          (layout.fixupLocation (sectionAddress + rel.rAddress.toUInt64)).isSome = true := by
        intro rel hrel hstores
        have hmem : rel ∈ written.pointers.map (·.rel) := by
          rw [hplain]
          exact List.mem_filter.mpr ⟨hrel, hstores⟩
        obtain ⟨pointer, hpointer, rfl⟩ := List.mem_map.mp hmem
        exact hplaces pointer hpointer
      refine ⟨hlocated, fun hswallows => ?_⟩
      have hlt := hmore hswallows
      rw [hfilter hlocated, hmeans.length_eq, List.length_map, hall.length_eq] at hlt
      exact Nat.lt_irrefl _ hlt
    · rintro ⟨hlocated, hno⟩
      have hmeans' := hmeans
      rw [hagree hno, hfilter hlocated, List.forall₂_map_left_iff] at hmeans'
      refine ((List.forall₂_and_left _ _).mpr ⟨hinside, hmeans'⟩).imp ?_
      rintro pointer fixup ⟨hfits, hfixup⟩
      have hlocation := hfixup.location
      rw [hfixup.address] at hlocation
      have hbytes := hplaced pointer.rel.rAddress hfits _ _ hlocation
      have hvalue : pointerAt output fixup.fileOffset
          = pointerAt written.out pointer.rel.offset := by
        unfold pointerAt
        rw [hbytes]
        rfl
      rw [← hvalue]
      exact hfixup
  · intro hapart
    exact writeRelocations_values hlocal hrun hapart (by simp)

/-! ### Three sections -/

/-- An image with a read-only and a writable segment, and one symbol in the first. -/
def pointerLayout : MachOLayout := { stubLayout 0 with
  segments := [⟨.text, ⟨0x100000000, 0, 32⟩⟩, ⟨.data, ⟨0x100004000, 32, 32⟩⟩]
  resolutions := [some ⟨0x100000010, .empty, none, none, 0⟩] }

/-- An object with a section at the start of each segment. -/
def pointerObject : ObjectLayout := ⟨0, [some 0], [some 0x100000000, some 0x100004000]⟩

/-- A pointer to the symbol of that object. -/
def quad (rAddress : UInt32) (rType : RelocationType) : RelocationInfo :=
  ⟨rAddress, 0, false, ⟨3, by decide⟩, true, rType⟩

/-- A function for instructions, in sections that hold none. -/
def noInstructions : ApplyInstruction := fun _ _ _ => .error (.error "Unknown relocation")

theorem noInstructions_local : LocalPatch noInstructions := by
  intro rel addend out out' h
  cases h

def paddedSection (relocations : List RelocationInfo) : ObjectSection :=
  ⟨0, List.replicate 16 0, relocations⟩

/-- The bytes of a section at the start of the writable segment are where they should be. -/
theorem pointerLayout_placed {out : Bytes} (h : out.length = 16) :
    Placed pointerLayout 0x100004000 out
      (List.replicate 32 0 ++ out ++ List.replicate 16 0) := by
  intro offset hoffset segmentIndex fileOffset hlocation
  have hall : ∀ k : Fin 9, pointerLayout.fixupLocation
      (0x100004000 + (UInt32.ofNat k).toUInt64) = some (1, 32 + k.val) := by decide +kernel
  have hfound := hall ⟨offset.toNat, by omega⟩
  rw [UInt32.ofNat_toNat, hlocation] at hfound
  obtain ⟨-, rfl⟩ := Prod.mk.inj (Option.some.inj hfound)
  apply List.ext_getElem?
  intro i
  rw [slice_getElem?, slice_getElem?, List.append_assoc]
  split
  · rw [List.getElem?_append_right (by simp; omega), List.getElem?_append_left (by simp; omega)]
    congr 1
    simp only [List.length_replicate]
    omega
  · rfl

/-- The theorem for a section with one pointer. -/
theorem fixups_collected_iff_one :
    ∃ written, pointerLayout.writeObjectSection noInstructions pointerObject 1
        (paddedSection [quad 8 .unsigned]) = .ok written
      ∧ ∃ output fixups, pointerLayout.collectSectionChainedFixups pointerObject 1
          (paddedSection [quad 8 .unsigned]) output = .ok fixups
        ∧ (List.Forall₂ (fun pointer fixup => FixupMeans pointerLayout pointerObject 0x100004000
              pointer.rel (pointerAt written.out pointer.rel.offset) fixup)
            written.pointers fixups
          ↔ (∀ rel ∈ plainRelocations false [quad 8 .unsigned],
              storesPointer (paddedSection [quad 8 .unsigned]) rel = true →
              (pointerLayout.fixupLocation
                (0x100004000 + rel.rAddress.toUInt64)).isSome = true)
            ∧ ¬ Swallows (fixable pointerLayout (paddedSection [quad 8 .unsigned]) 0x100004000)
              [quad 8 .unsigned])
        ∧ ([quad 8 .unsigned].Pairwise (fun a b => Patches a → Patches b → Apart a b) →
            ∀ pointer ∈ written.pointers,
              pointerAt written.out pointer.rel.offset = pointer.value) := by
  let written : RelocationWriter :=
    ⟨List.replicate 8 0 ++ [16, 0, 0, 0, 1, 0, 0, 0], none, none,
      [⟨quad 8 .unsigned, 0x100000010⟩]⟩
  let output : Bytes := List.replicate 32 0 ++ written.out ++ List.replicate 16 0
  let fixups : List ChainedFixup := [⟨1, 0x100004008, 40, .rebase 0x100000010⟩]
  have hwrite : pointerLayout.writeObjectSection noInstructions pointerObject 1
      (paddedSection [quad 8 .unsigned]) = .ok written := by decide +kernel
  have hcollect : pointerLayout.collectSectionChainedFixups pointerObject 1
      (paddedSection [quad 8 .unsigned]) output = .ok fixups := by decide +kernel
  exact ⟨written, hwrite, output, fixups, hcollect,
    fixups_collected_iff pointerLayout noInstructions_local pointerObject 1
      (paddedSection [quad 8 .unsigned]) rfl hwrite (pointerLayout_placed rfl) hcollect⟩

/-- A difference with an addend between its subtrahend and its minuend gets a fixup although the
writer stored no pointer there; and a pointer in a read-only segment gets none. -/
theorem fixups_collected_counterexample :
    (∃ written output fixups, pointerLayout.writeObjectSection noInstructions pointerObject 1
        (paddedSection [quad 0 .subtractor, quad 0 .addend, quad 0 .unsigned, quad 8 .unsigned])
          = .ok written
      ∧ Placed pointerLayout 0x100004000 written.out output
      ∧ pointerLayout.collectSectionChainedFixups pointerObject 1
        (paddedSection [quad 0 .subtractor, quad 0 .addend, quad 0 .unsigned, quad 8 .unsigned])
          output = .ok fixups
      ∧ written.pointers.map (·.rel.rAddress) = [8]
      ∧ fixups.map (·.address) = [0x100004000, 0x100004008])
    ∧ ∃ written output, pointerLayout.writeObjectSection noInstructions pointerObject 0
        (paddedSection [quad 0 .unsigned]) = .ok written
      ∧ Placed pointerLayout 0x100000000 written.out output
      ∧ pointerLayout.collectSectionChainedFixups pointerObject 0
        (paddedSection [quad 0 .unsigned]) output = .ok []
      ∧ written.pointers.map (·.rel.rAddress) = [0] := by
  constructor
  · let written : RelocationWriter :=
      ⟨List.replicate 8 0 ++ [16, 0, 0, 0, 1, 0, 0, 0], none, none,
        [⟨quad 8 .unsigned, 0x100000010⟩]⟩
    refine ⟨written, List.replicate 32 0 ++ written.out ++ List.replicate 16 0,
      [⟨1, 0x100004000, 32, .rebase 0⟩, ⟨1, 0x100004008, 40, .rebase 0x100000010⟩],
      by decide +kernel, pointerLayout_placed rfl, by decide +kernel, rfl, rfl⟩
  · let written : RelocationWriter :=
      ⟨[16, 0, 0, 0, 1, 0, 0, 0] ++ List.replicate 8 0, none, none,
        [⟨quad 0 .unsigned, 0x100000010⟩]⟩
    refine ⟨written, written.out ++ List.replicate 48 0, by decide +kernel, ?_,
      by decide +kernel, rfl⟩
    intro offset hoffset segmentIndex fileOffset hlocation
    have hall : ∀ k : Fin 9, pointerLayout.fixupLocation
        (0x100000000 + (UInt32.ofNat k).toUInt64) = none := by decide +kernel
    have hlen : written.out.length = 16 := rfl
    have hnone := hall ⟨offset.toNat, by omega⟩
    rw [UInt32.ofNat_toNat, hlocation] at hnone
    cases hnone

end JdxLinker.Macho
