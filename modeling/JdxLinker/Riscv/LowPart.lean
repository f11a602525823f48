import JdxLinker.Riscv.ApplyRelocations

/-!
# The low part of an address

A low part names the label of the instruction that has the high part. Its value is that of the high
part when the search comes to the relocation at the label and the copied computation looks up the
same string.
-/

namespace JdxLinker.Riscv

open Fallible

variable {M : OffsetMap}

/-- The high parts that are relative to their place. -/
def relativeHighParts : List RelocationType := [.pcrelHi20, .gotHi20, .tlsGotHi20, .tlsGdHi20]

/-- The section of merged strings in which a relocation's value is looked up. -/
def mergedSection (object : ObjectLayout) (rel : ElfRelocation) : Option Nat :=
  match getResolution object rel with
  | .error _ => none
  | .ok (resolution, symbolIndex) =>
      if resolution.flags.ifunc = false ∧ resolution.rawValue = 0 then do
        let symbol ← object.symbols[symbolIndex]?
        let sectionIndex ← symbol.sectionIndex
        match object.sections[sectionIndex]? with
        | some (.mergeStrings _) => some sectionIndex
        | _ => none
      else
        none

/-- A low part, the label that it names, and the one high part there that is relative to its
place. -/
structure LabelledPair (sec : RelocatedSection) where
  relocations : List ElfRelocation
  hi : ElfRelocation
  beforeHi : List ElfRelocation
  followingHi : List ElfRelocation
  hiAt : relocations = beforeHi ++ hi :: followingHi
  isHighPart : hi.rawType ∈ relativeHighParts
  lo : ElfRelocation
  beforeLo : List ElfRelocation
  followingLo : List ElfRelocation
  loAt : relocations = beforeLo ++ lo :: followingLo
  isLowPart : lo.rawType = .pcrelLo12I ∨ lo.rawType = .pcrelLo12S
  label : Nat
  sym : SymtabEntry
  names : lo.symbol = some label
  symAt : sec.object.symbols[label]? = some sym
  inSection : sym.sectionIndex = some sec.sectionIndex
  atHi : sym.value = hi.offset
  resolvesHere : ∀ r, sec.object.mergedSymbolResolution label = some r →
    r.rawValue = sec.sectionAddress + sec.outputOffset hi ∧ r.flags.ifunc = false
  only : ∀ r ∈ relocations, r.rawType ∈ relativeHighParts →
    sec.outputOffset r = sec.outputOffset hi → r = hi

namespace LabelledPair

variable {sec : RelocatedSection} (pair : LabelledPair sec)

/-- The value whose high part is written. -/
def highValue (strings : MergedStrings M) : Fallible UInt64 :=
  sec.valueAt strings pair.beforeHi pair.hi pair.followingHi

/-- The value whose low part is written. -/
def lowValue (strings : MergedStrings M) : Fallible UInt64 :=
  sec.valueAt strings pair.beforeLo pair.lo pair.followingLo

/-- The first high part at the place, going back from the low part and then on from it. -/
def found : Option ElfRelocation :=
  (pair.beforeLo.reverse ++ pair.followingLo).find? fun r =>
    r.isHighPart && sec.outputOffset r == sec.outputOffset pair.hi

/-- When the low part is taken from what the high part is taken from. -/
structure SameSource : Prop where
  noAddend : pair.lo.addend = 0
  hasSymbol : pair.hi.symbol ≠ none
  inPlace : ((sec.stateAfter pair.beforeHi).translate pair.hi).1 = sec.outputOffset pair.hi
  first : ∀ r, pair.found = some r → r.rawType ∈ relativeHighParts
  ownPart : pair.hi.rawType = .pcrelHi20 → ∀ idx, mergedSection sec.object pair.hi = some idx →
    ((sec.object.sectionIdRange.slice sec.layout.sectionPartIds)[
      sec.object.sectionIdRange.inputToId idx]?).map sec.layout.outputSectionId =
    (sec.layout.sectionPartIds[sec.object.sectionIdRange.inputToId idx]?).map
      sec.layout.outputSectionId

/-! ### The label -/

theorem getResolution_label : ∃ resolution : Resolution,
    getResolution sec.object pair.lo = .ok (resolution, pair.label) ∧
      resolution.rawValue = sec.sectionAddress + sec.outputOffset pair.hi ∧
      resolution.flags.ifunc = false := by
  rw [getResolution, pair.names, context, bind_ok, pair.symAt, context, bind_ok]
  cases hresolution : sec.object.mergedSymbolResolution pair.label with
  | some resolution => exact ⟨resolution, rfl, pair.resolvesHere resolution hresolution⟩
  | none =>
      refine ⟨{ rawValue := sec.sectionAddress + sec.outputOffset pair.hi }, ?_, rfl, rfl⟩
      rw [pair.inSection]
      simp only [ObjectLayout.sectionOffsetAddress, sec.loaded, unwrap, bind_ok, Option.map_some,
        pair.atHi]
      rfl

theorem valueWithAddend_label (strings : MergedStrings M) {resolution : Resolution}
    (hvalue : resolution.rawValue = sec.sectionAddress + sec.outputOffset pair.hi)
    (hifunc : resolution.flags.ifunc = false) (sectionPartIds : List PartId) :
    resolution.valueWithAddend sec.layout strings sec.object 0 pair.label sectionPartIds =
      .ok (sec.sectionAddress + sec.outputOffset pair.hi) := by
  have hmerged : getMergedStringOutputAddress sec.layout strings sec.object pair.label 0
      sectionPartIds false = .ok none := by
    simp only [getMergedStringOutputAddress, pair.symAt, context, bind_ok, pair.inSection,
      sec.notMerged, unwrap]
  have hzero : (0 : Int64).toUInt64 = 0 := rfl
  rw [Resolution.valueWithAddend, hifunc, if_neg Bool.false_ne_true, hmerged, bind_ok, hvalue,
    hzero, UInt64.add_zero]
  split <;> rfl

/-! ### The search -/

theorem findHighPart_eq :
    sec.findHighPart ((sec.stateAfter pair.beforeLo).remember sec pair.lo).highPartSymbols
      pair.followingLo (sec.outputOffset pair.hi) = pair.found := by
  have hlow : pair.lo.isHighPart = false := by
    unfold Relocation.isHighPart
    rcases pair.isLowPart with h | h <;> rw [h] <;> rfl
  rw [RelocatedSection.findHighPart, RelocatedSection.LoopState.remember, hlow,
    if_neg Bool.false_ne_true, RelocatedSection.lookup_highPartSymbols, found, List.find?_append]

theorem isHighPart_hi : pair.hi.isHighPart = true := by
  have hsub : relativeHighParts ⊆ highPartRelocations := by decide
  exact List.contains_iff_mem.mpr (hsub pair.isHighPart)

theorem hi_mem : pair.hi ∈ pair.beforeLo.reverse ++ pair.followingLo := by
  have hmem : pair.hi ∈ pair.beforeLo ++ pair.lo :: pair.followingLo := by
    rw [← pair.loAt, pair.hiAt]
    simp
  have hne : pair.hi ≠ pair.lo := by
    intro heq
    have hhigh := pair.isHighPart
    rw [heq] at hhigh
    rcases pair.isLowPart with h | h <;> rw [h] at hhigh <;> revert hhigh <;> decide
  simp only [List.mem_append, List.mem_cons, List.mem_reverse] at hmem ⊢
  exact hmem.imp_right fun h => h.resolve_left hne

theorem exists_found : ∃ r, pair.found = some r := by
  apply Option.isSome_iff_exists.mp
  rw [found, List.find?_isSome]
  exact ⟨pair.hi, pair.hi_mem, by simp [pair.isHighPart_hi]⟩

/-- What is found is the high part at the label, if it is relative to its place. -/
theorem eq_hi_of_found {r : ElfRelocation} (hfound : pair.found = some r)
    (hrelative : r.rawType ∈ relativeHighParts) : r = pair.hi := by
  have hmem : r ∈ pair.relocations := by
    have := List.mem_of_find?_eq_some hfound
    rw [pair.loAt]
    simp only [List.mem_append, List.mem_cons, List.mem_reverse] at this ⊢
    exact this.imp_right Or.inr
  have hoffset := List.find?_some hfound
  simp only [Bool.and_eq_true, beq_iff_eq] at hoffset
  exact pair.only r hmem hrelative hoffset.2

/-! ### The two values -/

theorem lowValue_eq (strings : MergedStrings M) (haddend : pair.lo.addend = 0) {r : ElfRelocation}
    (hfound : pair.found = some r) :
    pair.lowValue strings =
      sec.connectedValue strings (sec.object.sectionIdRange.slice sec.layout.sectionPartIds) 0 r
        (sec.sectionAddress + sec.outputOffset pair.hi) := by
  have hkind : relocationFromRaw pair.lo.rawType = { kind := .relativeRiscVLow12 } := by
    rcases pair.isLowPart with h | h <;> rw [h] <;> rfl
  obtain ⟨resolution, hresolution, hvalue, hifunc⟩ := pair.getResolution_label
  have hback : sec.sectionAddress + sec.outputOffset pair.hi - sec.sectionAddress =
      sec.outputOffset pair.hi := by
    rw [UInt64.add_comm, UInt64.add_sub_cancel]
  rw [lowValue, RelocatedSection.valueAt, RelocatedSection.applyRelocation, hkind]
  simp only [RelocatedSection.lowPart, hresolution, hkind, bind_ok, haddend, ensure_pos,
    pair.valueWithAddend_label strings hvalue hifunc, hback, pair.findHighPart_eq, hfound, context]

theorem lowValue_ne_ok (strings : MergedStrings M) (haddend : pair.lo.addend ≠ 0) (v : UInt64) :
    pair.lowValue strings ≠ .ok v := by
  have hkind : relocationFromRaw pair.lo.rawType = { kind := .relativeRiscVLow12 } := by
    rcases pair.isLowPart with h | h <;> rw [h] <;> rfl
  obtain ⟨resolution, hresolution, -, -⟩ := pair.getResolution_label
  rw [lowValue, RelocatedSection.valueAt, RelocatedSection.applyRelocation, hkind]
  simp only [RelocatedSection.lowPart, hresolution, bind_ok]
  intro h
  obtain ⟨_, hensure, -⟩ := bind_eq_ok.mp h
  exact haddend (ensure_eq_ok.mp hensure)

/-! ### What a value is taken from -/

/-- What a high part that is relative to its place is relative to. -/
def connectedTarget (sec : RelocatedSection) (strings : MergedStrings M)
    (sectionPartIds : List PartId) (hiRel : ElfRelocation) : Fallible UInt64 := do
  let (resolution, symbolIndex) ← getResolution sec.object hiRel
  match hiRel.rawType with
  | .pcrelHi20 =>
      resolution.valueWithAddend sec.layout strings sec.object hiRel.addend symbolIndex
        sectionPartIds
  | .gotHi20 => do
      let gotAddress ← resolution.gotAddressForRelocation
      .ok (gotAddress + hiRel.addend.toUInt64)
  | .tlsGdHi20 => do
      let gotAddress ← resolution.tlsgdGotAddress
      .ok (gotAddress + hiRel.addend.toUInt64)
  | _ => do
      let gotAddress ← resolution.gotAddressOf
      .ok (gotAddress + hiRel.addend.toUInt64)

theorem connectedValue_eq (strings : MergedStrings M) (sectionPartIds : List PartId)
    {hiRel : ElfRelocation} (hrelative : hiRel.rawType ∈ relativeHighParts) (place : UInt64) :
    sec.connectedValue strings sectionPartIds 0 hiRel place =
      connectedTarget sec strings sectionPartIds hiRel >>= fun target => .ok (target - place) := by
  simp only [relativeHighParts, List.mem_cons, List.not_mem_nil, or_false] at hrelative
  rw [RelocatedSection.connectedValue, connectedTarget]
  cases getResolution sec.object hiRel with
  | error failure => rfl
  | ok resolved =>
      rcases hrelative with h | h | h | h <;>
        simp only [h, relocationFromRaw, bind_ok, bind_assoc, UInt64.add_zero]

theorem applyRelocation_eq (strings : MergedStrings M) (highPartSymbols : HighPartSymbols)
    (following : List ElfRelocation) {rel : ElfRelocation}
    (hrelative : rel.rawType ∈ relativeHighParts) (hsymbol : rel.symbol ≠ none)
    (offsetInSection : UInt64) :
    sec.applyRelocation strings highPartSymbols following rel offsetInSection =
      connectedTarget sec strings sec.layout.sectionPartIds rel >>=
        fun target => .ok (target - (sec.sectionAddress + offsetInSection)) := by
  simp only [relativeHighParts, List.mem_cons, List.not_mem_nil, or_false] at hrelative
  rw [RelocatedSection.applyRelocation, connectedTarget]
  cases getResolution sec.object rel with
  | error failure =>
      rcases hrelative with h | h | h | h <;>
        simp only [h, relocationFromRaw, hsymbol] <;> rfl
  | ok resolved =>
      rcases hrelative with h | h | h | h <;>
        simp only [h, relocationFromRaw, hsymbol, if_false, bind_ok, bind_assoc,
          UInt64.add_zero, UInt64.and_neg_one]

/-- Only a high part that is relative to its place gives a low part a value. -/
theorem relative_of_connectedValue {strings : MergedStrings M} {sectionPartIds : List PartId}
    {bias place v : UInt64} {hiRel : ElfRelocation} (hhigh : hiRel.isHighPart = true)
    (h : sec.connectedValue strings sectionPartIds bias hiRel place = .ok v) :
    hiRel.rawType ∈ relativeHighParts := by
  have hmem := List.contains_iff_mem.mp hhigh
  obtain ⟨resolved, -, h⟩ := bind_eq_ok.mp h
  simp only [highPartRelocations, List.mem_cons, List.not_mem_nil, or_false] at hmem
  rcases hmem with htype | htype | htype | htype | htype | htype <;> rw [htype] at h ⊢
  · cases h
  · decide
  · decide
  · decide
  · decide
  · cases h

theorem symbol_of_getResolution {object : ObjectLayout} {rel : ElfRelocation}
    {resolved : Resolution × Nat} (h : getResolution object rel = .ok resolved) :
    rel.symbol ≠ none := by
  obtain ⟨symbolIndex, hsymbol, -⟩ := bind_eq_ok.mp h
  rw [context_eq_ok.mp hsymbol]
  exact Option.some_ne_none _

/-! ### The parts that are passed on -/

/-- The output section of a section's part, in the entries of the object alone. -/
theorem connectedTarget_congr {strings : MergedStrings M} {partIds partIds' : List PartId}
    {rel : ElfRelocation}
    (h : rel.rawType = .pcrelHi20 → ∀ idx, mergedSection sec.object rel = some idx →
      partIds[sec.object.sectionIdRange.inputToId idx]?.map sec.layout.outputSectionId =
        partIds'[sec.object.sectionIdRange.inputToId idx]?.map sec.layout.outputSectionId) :
    connectedTarget sec strings partIds rel = connectedTarget sec strings partIds' rel := by
  unfold connectedTarget
  cases hresolution : getResolution sec.object rel with
  | error failure => rfl
  | ok resolved =>
      obtain ⟨resolution, symbolIndex⟩ := resolved
      simp only [bind_ok]
      cases htype : rel.rawType with
      | pcrelHi20 =>
          simp only [Resolution.valueWithAddend]
          by_cases hmerged : resolution.flags.ifunc = false ∧ resolution.rawValue = 0
          · rw [hmerged.1, if_neg Bool.false_ne_true, if_neg Bool.false_ne_true, if_pos hmerged.2,
              if_pos hmerged.2]
            rw [getMergedStringOutputAddress_congr]
            intro symbol idx start hsymbol hidx hslot
            apply h htype
            rw [mergedSection, hresolution]
            simp [hmerged, hsymbol, hidx, hslot]
          · cases hifunc : resolution.flags.ifunc with
            | true => rfl
            | false =>
                have hne : resolution.rawValue ≠ 0 := fun hzero => hmerged ⟨hifunc, hzero⟩
                rw [if_neg Bool.false_ne_true, if_neg Bool.false_ne_true, if_neg hne, if_neg hne]
      | _ => rfl

/-! ### A string in one output section -/

/-- The only string is in one output section, at the start of the first bucket. -/
def onlyString (sectionId linearInputOffset : Nat) : MergedStrings M where
  sections s := ⟨[], [], [], if s = sectionId then [(linearInputOffset, ⟨0⟩)] else []⟩
  startAddresses _ := [0]

theorem findString_onlyString (sectionId : Nat) (start inputOffset : UInt64) :
    findString start inputOffset
      ((onlyString (M := M) sectionId (start + inputOffset).toNat).sections sectionId) =
        .ok ⟨0⟩ := by
  apply findString_of_stringOffset
  simp [MergedStringsSection.stringOffset, onlyString]

theorem findString_onlyString_ne {sectionId s : Nat} (h : s ≠ sectionId) (linear : Nat)
    (start inputOffset : UInt64) (o : BucketOffset) :
    findString start inputOffset ((onlyString (M := M) sectionId linear).sections s) ≠ .ok o := by
  have hnone : ∀ k, ((onlyString (M := M) sectionId linear).sections s).stringOffset k = none := by
    intro k
    simp [MergedStringsSection.stringOffset, onlyString, h]
  intro hfound
  rw [findString, hnone] at hfound
  obtain ⟨j, -, hj⟩ := List.exists_of_findSome?_eq_some (context_eq_ok.mp hfound)
  simp [hnone] at hj

/-- Where the parts belong to different output sections, there are strings for which the value is
found with the one and not with the other. -/
theorem exists_strings_of_ne {partIds partIds' : List PartId} {rel : ElfRelocation}
    (htype : rel.rawType = .pcrelHi20) {idx : Nat} (hidx : mergedSection sec.object rel = some idx)
    {sectionId : OutputSectionId}
    (hpart : partIds[sec.object.sectionIdRange.inputToId idx]?.map sec.layout.outputSectionId =
      some sectionId)
    (hpart' : partIds'[sec.object.sectionIdRange.inputToId idx]?.map sec.layout.outputSectionId ≠
      some sectionId) :
    ∃ (strings : MergedStrings M) (target : UInt64),
      connectedTarget sec strings partIds rel = .ok target ∧
        ∀ target', connectedTarget sec strings partIds' rel ≠ .ok target' := by
  cases hresolution : getResolution sec.object rel with
  | error failure => simp [mergedSection, hresolution] at hidx
  | ok resolved =>
      obtain ⟨resolution, symbolIndex⟩ := resolved
      simp only [mergedSection, hresolution] at hidx
      by_cases hmerged : resolution.flags.ifunc = false ∧ resolution.rawValue = 0
      · rw [if_pos hmerged] at hidx
        obtain ⟨symbol, hsymbol, hidx⟩ := Option.bind_eq_some_iff.mp hidx
        obtain ⟨idx', hidx', hidx⟩ := Option.bind_eq_some_iff.mp hidx
        obtain ⟨start, hslot, rfl⟩ : ∃ start,
            sec.object.sections[idx']? = some (.mergeStrings start) ∧ idx' = idx := by
          split at hidx
          · exact ⟨_, ‹_›, Option.some.inj hidx⟩
          · cases hidx
        let inputOffset :=
          if symbol.hasName then symbol.value else symbol.value + rel.addend.toUInt64
        refine ⟨onlyString sectionId (start + inputOffset).toNat,
          if symbol.hasName then 0 + rel.addend.toUInt64 else 0, ?_, ?_⟩
        · simp only [connectedTarget, hresolution, htype, bind_ok, Resolution.valueWithAddend,
            hmerged, Bool.false_eq_true, if_false, if_true, getMergedStringOutputAddress, hsymbol,
            hidx', hslot, context, unwrap, Bool.and_false, hpart]
          rw [findString_onlyString]
          rfl
        · intro target'
          simp only [connectedTarget, hresolution, htype, bind_ok, Resolution.valueWithAddend,
            hmerged, Bool.false_eq_true, if_false, if_true, getMergedStringOutputAddress, hsymbol,
            hidx', hslot, context, unwrap, Bool.and_false]
          intro h
          obtain ⟨found, hfound, -⟩ := bind_eq_ok.mp h
          obtain ⟨s, hs, hfound⟩ := bind_eq_ok.mp hfound
          obtain ⟨o, ho, -⟩ := bind_eq_ok.mp hfound
          have hs := unwrap_eq_ok.mp hs
          have hne : s ≠ sectionId := fun heq => hpart' (heq ▸ hs)
          exact findString_onlyString_ne hne _ _ _ o ho
      · rw [if_neg hmerged] at hidx
        cases hidx

/-! ### Low parts and high parts -/

theorem target_of_lowValue {strings : MergedStrings M} {v : UInt64}
    (h : pair.lowValue strings = .ok v) :
    pair.lo.addend = 0 ∧ pair.hi.symbol ≠ none ∧
      (∀ r, pair.found = some r → r.rawType ∈ relativeHighParts) ∧
      ∃ target, connectedTarget sec strings
        (sec.object.sectionIdRange.slice sec.layout.sectionPartIds) pair.hi = .ok target ∧
          v = target - (sec.sectionAddress + sec.outputOffset pair.hi) := by
  have haddend : pair.lo.addend = 0 := by
    by_contra hne
    exact pair.lowValue_ne_ok strings hne v h
  obtain ⟨r, hfound⟩ := pair.exists_found
  rw [pair.lowValue_eq strings haddend hfound] at h
  have hhigh : r.isHighPart = true := by
    have := List.find?_some hfound
    simp only [Bool.and_eq_true] at this
    exact this.1
  have hrelative := relative_of_connectedValue hhigh h
  obtain rfl := pair.eq_hi_of_found hfound hrelative
  have hresolved := h
  obtain ⟨resolved, hresolution, -⟩ := bind_eq_ok.mp hresolved
  rw [connectedValue_eq strings _ hrelative] at h
  obtain ⟨target, htarget, hv⟩ := bind_eq_ok.mp h
  refine ⟨haddend, symbol_of_getResolution hresolution, ?_, target, htarget, ?_⟩
  · intro r' hr'
    rw [hfound] at hr'
    exact Option.some.inj hr' ▸ hrelative
  · exact (Except.ok.inj hv).symm

theorem target_of_highValue {strings : MergedStrings M} {v : UInt64}
    (hsymbol : pair.hi.symbol ≠ none) :
    pair.highValue strings = .ok v ↔
      ∃ target, connectedTarget sec strings sec.layout.sectionPartIds pair.hi = .ok target ∧
        v = target -
          (sec.sectionAddress + ((sec.stateAfter pair.beforeHi).translate pair.hi).1) := by
  rw [highValue, RelocatedSection.valueAt, applyRelocation_eq strings _ _ pair.isHighPart hsymbol,
    bind_eq_ok]
  simp only [Except.ok.injEq, eq_comm]

theorem lowValue_eq_highValue (h : pair.SameSource) {strings : MergedStrings M} {v : UInt64}
    (hhigh : pair.highValue strings = .ok v) : pair.lowValue strings = .ok v := by
  obtain ⟨target, htarget, hv⟩ := (pair.target_of_highValue h.hasSymbol).mp hhigh
  obtain ⟨r, hfound⟩ := pair.exists_found
  obtain rfl := pair.eq_hi_of_found hfound (h.first r hfound)
  rw [pair.lowValue_eq strings h.noAddend hfound, connectedValue_eq strings _ pair.isHighPart,
    connectedTarget_congr h.ownPart, htarget, bind_ok, hv, h.inPlace]

/-- Where the high part was resolved, the low part has its value, however strings were merged, if
and only if it is taken from the same source. -/
theorem lowPart_eq_highPart_iff
    (hresolved : ∃ (strings : MergedStrings M) (v : UInt64), pair.highValue strings = .ok v) :
    (∀ (strings : MergedStrings M) (v : UInt64), pair.highValue strings = .ok v →
      pair.lowValue strings = .ok v) ↔ pair.SameSource := by
  constructor
  · intro hall
    obtain ⟨strings, v, hhigh⟩ := hresolved
    obtain ⟨haddend, hsymbol, hfirst, target, htarget, hv⟩ :=
      pair.target_of_lowValue (hall strings v hhigh)
    obtain ⟨target', htarget', hv'⟩ := (pair.target_of_highValue hsymbol).mp hhigh
    have hown : pair.hi.rawType = .pcrelHi20 → ∀ idx,
        mergedSection sec.object pair.hi = some idx →
        ((sec.object.sectionIdRange.slice sec.layout.sectionPartIds)[
          sec.object.sectionIdRange.inputToId idx]?).map sec.layout.outputSectionId =
        (sec.layout.sectionPartIds[sec.object.sectionIdRange.inputToId idx]?).map
          sec.layout.outputSectionId := by
      intro htype idx hidx
      by_contra hne
      cases hpart : (sec.layout.sectionPartIds[sec.object.sectionIdRange.inputToId idx]?).map
          sec.layout.outputSectionId with
      | none =>
          have hslice := sec.object.sectionIdRange.getElem?_slice_eq_none
            (Option.map_eq_none_iff.mp hpart)
          exact hne (by rw [hpart, hslice]; rfl)
      | some sectionId =>
          rw [hpart] at hne
          -- Strings for which the low part fails, although the high part does not.
          obtain ⟨strings', t, ht, hfail⟩ :=
            exists_strings_of_ne (M := M) htype hidx hpart hne
          have hlow := hall strings' _ ((pair.target_of_highValue hsymbol).mpr ⟨t, ht, rfl⟩)
          obtain ⟨-, -, -, t', ht', -⟩ := pair.target_of_lowValue hlow
          exact hfail t' ht'
    have hsame : target = target' := by
      rw [connectedTarget_congr hown, htarget'] at htarget
      exact (Except.ok.inj htarget).symm
    refine ⟨haddend, hsymbol, ?_, hfirst, hown⟩
    rw [hsame, hv', UInt64.sub_right_inj] at hv
    exact (UInt64.add_right_inj _).mp hv
  · intro h strings v hhigh
    exact pair.lowValue_eq_highValue h hhigh

/-- In a run that succeeds the two relocations have then written one value. -/
theorem exists_written (h : pair.SameSource) {strings : MergedStrings M}
    {values : List (Option UInt64)}
    (hrun : sec.applyRelocations strings sec.startState pair.relocations = .ok values)
    (hhi : (sec.stateAfter pair.beforeHi).skipNext = false)
    (hlo : (sec.stateAfter pair.beforeLo).skipNext = false) :
    ∃ v, values[pair.beforeHi.length]? = some (some v) ∧
      values[pair.beforeLo.length]? = some (some v) := by
  obtain ⟨v, hv, hhigh⟩ := sec.applyRelocations_eq_ok strings hrun pair.hiAt hhi
  obtain ⟨v', hv', hlow⟩ := sec.applyRelocations_eq_ok strings hrun pair.loAt hlo
  have hsame := pair.lowValue_eq_highValue h hhigh
  rw [lowValue, hlow] at hsame
  exact ⟨v, hv, hv'.trans (by rw [Except.ok.inj hsame])⟩

end LabelledPair

/-! ### A string that is loaded by its section's symbol -/

namespace StringLoad

def label : SymtabEntry := ⟨true, some 0, 0⟩

def stringSection : SymtabEntry := ⟨false, some 1, 0⟩

def hi : ElfRelocation := ⟨0, .pcrelHi20, some 1, 4⟩

def lo : ElfRelocation := ⟨4, .pcrelLo12I, some 0, 0⟩

/-- Code and a section of merged strings, in the first object or after one with two sections. -/
def sec (startSectionId : Nat) : RelocatedSection where
  layout := ⟨[7, 9, 7, 9], id, false, none⟩
  object :=
    { symbols := [label, stringSection]
      sections := [.other, .mergeStrings 0]
      sectionResolutions := [some 4096, none]
      sectionIdRange := ⟨startSectionId, 2⟩
      sectionRelaxDeltas := fun _ => none
      mergedSymbolResolution := fun i => if i = 1 then some { rawValue := 0 } else none }
  sectionIndex := 0
  sectionAddress := 4096
  others := ⟨fun _ _ => .ok 0, fun _ _ => false⟩
  loaded := rfl
  notMerged := rfl

def strings : MergedStrings (listOffsetMap 1) where
  sections s := ⟨[], [], [], if s = 9 then [(4, ⟨0⟩)] else []⟩
  startAddresses _ := [8192]

def pair (startSectionId : Nat) : LabelledPair (sec startSectionId) where
  relocations := [hi, lo]
  hi := hi
  beforeHi := []
  followingHi := [lo]
  hiAt := rfl
  isHighPart := by decide
  lo := lo
  beforeLo := [hi]
  followingLo := []
  loAt := rfl
  isLowPart := Or.inl rfl
  label := 0
  sym := label
  names := rfl
  symAt := rfl
  inSection := rfl
  atHi := rfl
  resolvesHere := by
    intro r hr
    cases hr
  only := by
    intro r hr htype _
    rcases List.mem_pair.mp hr with rfl | rfl
    · rfl
    · have hne : lo.rawType ∉ relativeHighParts := by decide
      exact absurd htype hne

theorem highValue_pair {startSectionId : Nat} (h : startSectionId = 0 ∨ startSectionId = 2) :
    (pair startSectionId).highValue strings = .ok 4096 := by
  rcases h with rfl | rfl <;> rfl

end StringLoad

/-- In the first object the object's own entries of the table start where the whole table does. -/
theorem LabelledPair.lowPart_eq_highPart_iff_first :
    (∀ (strings : MergedStrings (listOffsetMap 1)) (v : UInt64),
      (StringLoad.pair 0).highValue strings = .ok v →
        (StringLoad.pair 0).lowValue strings = .ok v) ↔ (StringLoad.pair 0).SameSource :=
  (StringLoad.pair 0).lowPart_eq_highPart_iff
    ⟨StringLoad.strings, 4096, StringLoad.highValue_pair (Or.inl rfl)⟩

/-- In a later object the entry is looked up beyond the end of the object's own. -/
theorem LabelledPair.lowPart_eq_highPart_counterexample :
    (StringLoad.pair 2).highValue StringLoad.strings = .ok 4096 ∧
      (StringLoad.pair 2).lowValue StringLoad.strings = .error .panic :=
  ⟨StringLoad.highValue_pair (Or.inr rfl), rfl⟩

end JdxLinker.Riscv
