import JdxLinker.Lib.Uleb
import JdxLinker.Relocation.Application
import JdxLinker.Relocation.Kinds

/-!
# Differences as ULEB128 numbers

A pair of relocations stores the difference of two addresses as a ULEB128 number. The assembler has
chosen how many bytes the number takes, and what follows it is read from where the number ends.
-/

namespace JdxLinker.Relocation

open Fallible Bytes

variable {T : Type} {M : OffsetMap}

/-- The types of a pair. The first one stores nothing. -/
structure UlebPair (arch : Arch T) where
  setType : T
  subType : T
  setInfo : RelocationKindInfo T
  subInfo : RelocationKindInfo T
  set : arch.relocationTypeFromRaw setType = some setInfo
  sub : arch.relocationTypeFromRaw subType = some subInfo
  set_kind : setInfo.kind = .relative
  set_size : setInfo.size = .byteSize 0
  set_plain : setInfo.mask = none ∧ setInfo.bias = 0
  sub_kind : subInfo.kind = .pairSubtractionUleb128 setType
  set_unchecked : setInfo.range = .noCheck ∧ setInfo.alignment = 1
  sub_unchecked : subInfo.range = .noCheck ∧ subInfo.alignment = 1
  allowed : arch.isDisallowedForInterposableSymbols setType = false ∧
    arch.isDisallowedForInterposableSymbols subType = false

def riscVArch (relTypeToString : RiscVRelocationType → String) : Arch RiscVRelocationType where
  relocationTypeFromRaw := RiscVRelocationType.relocationTypeFromRaw
  relTypeToString := relTypeToString
  isDisallowedInSharedObject _ := false
  isDisallowedForInterposableSymbols rType := rType == .abs32
  thunkable rType info h hthunkable := by
    obtain ⟨row, -, rfl⟩ := Option.map_eq_some_iff.mp h
    exact absurd hthunkable Bool.false_ne_true
  dtpOff rType info mask h hkind := by
    obtain ⟨row, hrow, rfl⟩ := Option.map_eq_some_iff.mp h
    cases rType <;> cases hrow <;> cases hkind

/-- The pair of RISC-V. -/
def riscVUlebPair (relTypeToString : RiscVRelocationType → String) :
    UlebPair (riscVArch relTypeToString) where
  setType := .setUleb128
  subType := .subUleb128
  setInfo := _
  subInfo := _
  set := rfl
  sub := rfl
  set_kind := rfl
  set_size := rfl
  set_plain := ⟨rfl, rfl⟩
  sub_kind := rfl
  set_unchecked := ⟨rfl, rfl⟩
  sub_unchecked := ⟨rfl, rfl⟩
  allowed := ⟨rfl, rfl⟩

/-! ### Stores -/

theorem verify_of_unchecked {info : RelocationKindInfo T}
    (h : info.range = .noCheck ∧ info.alignment = 1) (value : BitVec 64) :
    info.verify value = .ok () ↔ value.toInt ≠ 2 ^ 63 - 1 := by
  have hmin := value.le_toInt
  have hmax := value.toInt_lt
  rw [RelocationKindInfo.verify, h.2, Nat.mod_one, ensure_pos _ rfl, bind_ok, ensure_eq_ok, h.1,
    AllowedRange.contains, Bool.and_eq_true, decide_eq_true_eq, decide_eq_true_eq]
  change -2 ^ 63 ≤ value.toInt ∧ value.toInt < 2 ^ 63 - 1 ↔ _
  omega

theorem bind_error {α β : Type} (e : Failure) (f : α → Fallible β) :
    (Except.error e >>= f : Fallible β) = .error e := rfl

variable (lebUnsigned : BitVec 64 → List UInt8)

/-- Nothing is stored for the first relocation of a pair. -/
theorem storeAt_nothing {info : RelocationKindInfo T} (hkind : info.kind = .relative)
    (hsize : info.size = .byteSize 0) (value : UInt64) {out : List UInt8} {offset : Nat}
    (hoffset : offset ≤ out.length) (hverify : info.verify value.toBitVec = .ok ()) :
    info.storeAt lebUnsigned value out offset = .ok out := by
  rw [RelocationKindInfo.storeAt, assert, if_pos hoffset, bind_ok, RelocationKindInfo.writeToBuffer,
    hverify, bind_ok, hkind]
  simp only [hsize]
  rw [ensure_pos _ (Nat.zero_le _), bind_ok, assert, if_pos (by decide), bind_ok,
    RelocationKindInfo.copyFromSlice, assert, if_pos (by exact Nat.zero_le _), bind_ok, bind_ok]
  change Except.ok (out.take offset ++ (out.drop offset).drop 0) = Except.ok out
  rw [List.drop_zero, List.take_append_drop]

theorem storeAt_verify {info : RelocationKindInfo T} {value : UInt64} {out out' : List UInt8}
    {offset : Nat} (h : info.storeAt lebUnsigned value out offset = .ok out') :
    info.verify value.toBitVec = .ok () := by
  rw [RelocationKindInfo.storeAt] at h
  obtain ⟨u, -, h⟩ := bind_eq_ok.mp h
  obtain ⟨tail, htail, -⟩ := bind_eq_ok.mp h
  rw [RelocationKindInfo.writeToBuffer] at htail
  obtain ⟨u, hverify, -⟩ := bind_eq_ok.mp htail
  exact hverify

/-- The number is stored in as few bytes as it takes, over what is at its place. -/
theorem storeAt_uleb (hleb : ∀ value, lebUnsigned value = Uleb.encode value.toNat)
    {info : RelocationKindInfo T} {expected : T}
    (hkind : info.kind = .pairSubtractionUleb128 expected) {value : UInt64} {out : List UInt8}
    {offset : Nat} (hverify : info.verify value.toBitVec = .ok ())
    (hfit : offset + Uleb.size value.toNat ≤ out.length) :
    info.storeAt lebUnsigned value out offset =
      .ok (out.take offset ++ (Uleb.encode value.toNat ++
        out.drop (offset + Uleb.size value.toNat))) := by
  have hencoded : (Uleb.encode value.toNat).length ≤ (out.drop offset).length := by
    rw [Uleb.encode_length, List.length_drop]
    omega
  rw [RelocationKindInfo.storeAt, assert, if_pos (by omega), bind_ok,
    RelocationKindInfo.writeToBuffer, hverify, bind_ok, hkind]
  simp only [hleb, UInt64.toNat_toBitVec]
  rw [ensure_pos _ hencoded, bind_ok, RelocationKindInfo.copyFromSlice, assert, if_pos hencoded,
    bind_ok, bind_ok, splice, List.take_zero, List.nil_append, Nat.zero_add, List.drop_drop,
    Uleb.encode_length]

/-- A number that does not fit in the rest of the section, or is not in the range of the
relocation, is refused. -/
theorem storeAt_uleb_eq_ok (hleb : ∀ value, lebUnsigned value = Uleb.encode value.toNat)
    {info : RelocationKindInfo T} {expected : T}
    (hkind : info.kind = .pairSubtractionUleb128 expected) {value : UInt64} {out out' : List UInt8}
    {offset : Nat} (h : info.storeAt lebUnsigned value out offset = .ok out') :
    info.verify value.toBitVec = .ok () ∧ offset + Uleb.size value.toNat ≤ out.length := by
  rw [RelocationKindInfo.storeAt] at h
  obtain ⟨u, hoffset, h⟩ := bind_eq_ok.mp h
  obtain ⟨tail, htail, -⟩ := bind_eq_ok.mp h
  rw [RelocationKindInfo.writeToBuffer] at htail
  obtain ⟨u, hverify, htail⟩ := bind_eq_ok.mp htail
  rw [hkind] at htail
  simp only [hleb, UInt64.toNat_toBitVec] at htail
  obtain ⟨u, hfit, -⟩ := bind_eq_ok.mp htail
  rw [ensure_eq_ok, Uleb.encode_length, List.length_drop] at hfit
  rw [assert_eq_ok] at hoffset
  exact ⟨hverify, by omega⟩

/-! ### A pair -/

section Pair

variable [DecidableEq T] (link : Link M) (arch : Arch T) (others : OtherRelocations T)
  (sectionInfo : SectionInfo)

/-- A section after both relocations of a pair were applied at an offset. -/
def applyUlebPair (setRel subRel : Riscv.Relocation T) (offsetInSection : UInt64)
    (out : List UInt8) : Fallible (List UInt8) := do
  let out ← link.applyRelocation lebUnsigned arch others sectionInfo none setRel offsetInSection out
  link.applyRelocation lebUnsigned arch others sectionInfo (some setRel) subRel offsetInSection out

end Pair

/-- The address that a relocation refers to. -/
def Link.address (link : Link M) (rel : Riscv.Relocation T) : Fallible UInt64 := do
  let (resolution, symbolIndex) ← Riscv.getResolution link.object rel
  link.valueWithAddend resolution symbolIndex rel.addend

theorem Link.address_eq_ok {link : Link M} {rel : Riscv.Relocation T} {value : UInt64} :
    link.address rel = .ok value ↔ ∃ resolution symbolIndex,
      Riscv.getResolution link.object rel = .ok (resolution, symbolIndex) ∧
        link.valueWithAddend resolution symbolIndex rel.addend = .ok value := by
  rw [address, bind_eq_ok]
  constructor
  · intro h
    obtain ⟨⟨resolution, symbolIndex⟩, hresolution, hvalue⟩ := h
    exact ⟨resolution, symbolIndex, hresolution, hvalue⟩
  · intro h
    obtain ⟨resolution, symbolIndex, hresolution, hvalue⟩ := h
    exact ⟨(resolution, symbolIndex), hresolution, hvalue⟩

/-- A number takes `len` bytes at an offset, however it is padded. -/
def Occupies (out : List UInt8) (offset len : Nat) : Prop :=
  offset + len ≤ out.length ∧ ∃ n, Uleb.decode (out.drop offset) = some (n, out.drop (offset + len))

/-- What the linker has to keep: the number that is read at the offset is the difference, it ends
where the earlier one ended, and the other bytes are as they were. -/
structure Keeps (out out' : List UInt8) (offset len difference : Nat) : Prop where
  length : out'.length = out.length
  before : out'.take offset = out.take offset
  number : Uleb.decode (out'.drop offset) = some (difference, out.drop (offset + len))

/-- A pair that is applied keeps the length of the number, and a difference that does not fit in it
is an error. -/
structure PairKept (result : Fallible (List UInt8)) (out : List UInt8)
    (offset len difference : Nat) : Prop where
  kept : ∀ out', result = .ok out' → Keeps out out' offset len difference
  refused : len < Uleb.size difference → ∃ e, result = .error e

section Apply

variable [DecidableEq T] {lebUnsigned} {link : Link M} {arch : Arch T} {others : OtherRelocations T}
  {sectionInfo : SectionInfo} {setRel subRel : Riscv.Relocation T} {setAddress subAddress : UInt64}

/-- What the first relocation of a pair would be stored as. -/
def setValue (others : OtherRelocations T) (sectionInfo : SectionInfo)
    (setRel : Riscv.Relocation T) (setAddress offsetInSection : UInt64) : UInt64 :=
  setAddress + others.branchLocalEntry setRel - (sectionInfo.sectionAddress + offsetInSection)

theorem applySet_eq (pair : UlebPair arch) (hset : setRel.rawType = pair.setType)
    (haddress : link.address setRel = .ok setAddress) (offsetInSection : UInt64)
    (out : List UInt8) :
    link.applyRelocation lebUnsigned arch others sectionInfo none setRel offsetInSection out =
      pair.setInfo.storeAt lebUnsigned (setValue others sectionInfo setRel setAddress offsetInSection)
        out offsetInSection.toNat := by
  obtain ⟨resolution, symbolIndex, hresolution, hvalue⟩ := Link.address_eq_ok.mp haddress
  have hkind := pair.set_kind
  have hbias : UInt64.ofBitVec pair.setInfo.bias = 0 := by rw [pair.set_plain.2]; rfl
  have hvalue' : link.relocationValue arch others pair.setInfo sectionInfo none setRel
      (sectionInfo.sectionAddress + offsetInSection) resolution symbolIndex =
        .ok (setValue others sectionInfo setRel setAddress offsetInSection) := by
    have hones : ∀ x : UInt64, x &&& UInt64.ofBitVec (BitVec.allOnes 64) = x := by
      intro x
      apply UInt64.toBitVec_inj.mp
      exact BitVec.and_allOnes
    rw [Link.relocationValue, hkind]
    simp only [hvalue, bind_ok, pair.set_plain.1, getPageMask, hbias, hones, UInt64.add_zero]
    rfl
  rw [link.applyRelocation_of_allowed (hset ▸ pair.set) (by rw [hkind]; nofun) (by rw [hkind]; nofun)
    (by rw [hkind]; nofun) (by rw [hkind]; nofun) hresolution (hset ▸ pair.allowed.1), hvalue',
    bind_ok, hkind]
  rfl

theorem applySub_eq (pair : UlebPair arch) (hset : setRel.rawType = pair.setType)
    (hsub : subRel.rawType = pair.subType) (hoffset : setRel.offset = subRel.offset)
    (hsetAddress : link.address setRel = .ok setAddress)
    (hsubAddress : link.address subRel = .ok subAddress) (offsetInSection : UInt64)
    (out : List UInt8) :
    link.applyRelocation lebUnsigned arch others sectionInfo (some setRel) subRel offsetInSection
        out =
      pair.subInfo.storeAt lebUnsigned (setAddress - subAddress) out offsetInSection.toNat := by
  obtain ⟨resolution, symbolIndex, hresolution, hvalue⟩ := Link.address_eq_ok.mp hsubAddress
  obtain ⟨setResolution, setIndex, hsetResolution, hsetValue⟩ := Link.address_eq_ok.mp hsetAddress
  have hkind := pair.sub_kind
  have hvalue' : link.relocationValue arch others pair.subInfo sectionInfo (some setRel) subRel
      (sectionInfo.sectionAddress + offsetInSection) resolution symbolIndex =
        .ok (setAddress - subAddress) := by
    rw [Link.relocationValue, hkind]
    simp only [context, bind_ok]
    rw [Link.getPairSubtractionRelocationValue, ensure_pos _ hoffset, bind_ok, ensure_pos _ hset,
      bind_ok, hsetResolution, bind_ok]
    simp only [hsetValue, hvalue, bind_ok]
  have hne : ∀ kind, kind ≠ RelocationKind.pairSubtractionUleb128 pair.setType →
      pair.subInfo.kind ≠ kind := fun kind h => by rw [hkind]; exact h.symm
  rw [link.applyRelocation_of_allowed (hsub ▸ pair.sub) (hne _ (by simp)) (hne _ (by simp))
    (hne _ (by simp)) (hne _ (by simp)) hresolution (hsub ▸ pair.allowed.2), hvalue',
    bind_ok, hkind]
  rfl

/-- The values that are never stored: one that the range of no check leaves out, and a number that
is longer than the rest of the section. -/
def PairRefused (out : List UInt8) (offset : Nat) (first difference : UInt64) : Prop :=
  first.toBitVec.toInt = 2 ^ 63 - 1 ∨ difference.toBitVec.toInt = 2 ^ 63 - 1 ∨
    out.length < offset + Uleb.size difference.toNat

/-- A section after a number was stored at an offset, with no view of what was there. -/
theorem keeps_iff {out : List UInt8} {offset len difference : Nat} (hlen : Occupies out offset len)
    (hfit : offset + Uleb.size difference ≤ out.length) :
    Keeps out (out.take offset ++ (Uleb.encode difference ++
        out.drop (offset + Uleb.size difference))) offset len difference ↔
      Uleb.size difference = len := by
  have htake : (out.take offset).length = offset := by
    rw [List.length_take]
    omega
  have hdrop : (out.take offset ++ (Uleb.encode difference ++
      out.drop (offset + Uleb.size difference))).drop offset =
        Uleb.encode difference ++ out.drop (offset + Uleb.size difference) :=
    List.drop_left' htake
  constructor
  · intro h
    have hnumber := h.number
    rw [hdrop, Uleb.decode_encode, Option.some.injEq, Prod.mk.injEq] at hnumber
    have hlength := congrArg List.length hnumber.2
    rw [List.length_drop, List.length_drop] at hlength
    have hle := hlen.1
    omega
  · rintro rfl
    refine ⟨?_, List.take_left' htake, ?_⟩
    · rw [List.length_append, List.length_append, htake, Uleb.encode_length, List.length_drop]
      omega
    · rw [hdrop, Uleb.decode_encode]

/-- A pair keeps the length of the number just where the difference takes as many bytes as are
there, or nothing is stored. -/
theorem ulebPair_kept_iff (hleb : ∀ value, lebUnsigned value = Uleb.encode value.toNat)
    (pair : UlebPair arch) (hset : setRel.rawType = pair.setType)
    (hsub : subRel.rawType = pair.subType) (hoffset : setRel.offset = subRel.offset)
    (hsetAddress : link.address setRel = .ok setAddress)
    (hsubAddress : link.address subRel = .ok subAddress) {offsetInSection : UInt64}
    {out : List UInt8} {len : Nat} (hlen : Occupies out offsetInSection.toNat len) :
    PairKept (applyUlebPair lebUnsigned link arch others sectionInfo setRel subRel offsetInSection
        out) out offsetInSection.toNat len (setAddress - subAddress).toNat ↔
      Uleb.size (setAddress - subAddress).toNat = len ∨
        PairRefused out offsetInSection.toNat
          (setValue others sectionInfo setRel setAddress offsetInSection)
          (setAddress - subAddress) := by
  have happly : applyUlebPair lebUnsigned link arch others sectionInfo setRel subRel offsetInSection
      out = (pair.setInfo.storeAt lebUnsigned
        (setValue others sectionInfo setRel setAddress offsetInSection) out offsetInSection.toNat
          >>= fun out => pair.subInfo.storeAt lebUnsigned (setAddress - subAddress) out
            offsetInSection.toNat) := by
    rw [applyUlebPair, applySet_eq pair hset hsetAddress]
    congr 1
    funext out
    rw [applySub_eq pair hset hsub hoffset hsetAddress hsubAddress]
  have hstart : offsetInSection.toNat ≤ out.length := by
    have hle := hlen.1
    omega
  have hfirst := storeAt_nothing lebUnsigned pair.set_kind pair.set_size
    (setValue others sectionInfo setRel setAddress offsetInSection) hstart
  rw [verify_of_unchecked pair.set_unchecked] at hfirst
  by_cases hrefused : PairRefused out offsetInSection.toNat
      (setValue others sectionInfo setRel setAddress offsetInSection) (setAddress - subAddress)
  · have herror : ∀ out', applyUlebPair lebUnsigned link arch others sectionInfo setRel subRel
        offsetInSection out ≠ .ok out' := by
      intro out' hok
      rw [happly] at hok
      obtain ⟨between, hset', hsub'⟩ := bind_eq_ok.mp hok
      have hverify := storeAt_verify lebUnsigned hset'
      rw [verify_of_unchecked pair.set_unchecked] at hverify
      obtain rfl := Except.ok.inj ((hfirst hverify).symm.trans hset')
      obtain ⟨hdifference, hfit⟩ := storeAt_uleb_eq_ok lebUnsigned hleb pair.sub_kind hsub'
      rw [verify_of_unchecked pair.sub_unchecked] at hdifference
      rcases hrefused with h | h | h
      · exact hverify h
      · exact hdifference h
      · omega
    refine ⟨fun _ => .inr hrefused, fun _ => ⟨fun out' hok => absurd hok (herror out'), fun _ => ?_⟩⟩
    cases hresult : applyUlebPair lebUnsigned link arch others sectionInfo setRel subRel
        offsetInSection out with
    | error e => exact ⟨e, rfl⟩
    | ok out' => exact absurd hresult (herror out')
  · obtain ⟨hset', hrest⟩ := not_or.mp hrefused
    obtain ⟨hdifference, hfit⟩ := not_or.mp hrest
    have happlied : applyUlebPair lebUnsigned link arch others sectionInfo setRel subRel
        offsetInSection out = .ok (out.take offsetInSection.toNat ++
          (Uleb.encode (setAddress - subAddress).toNat ++
            out.drop (offsetInSection.toNat + Uleb.size (setAddress - subAddress).toNat))) := by
      rw [happly, hfirst hset', bind_ok]
      exact storeAt_uleb lebUnsigned hleb pair.sub_kind
        ((verify_of_unchecked pair.sub_unchecked _).mpr hdifference) (by omega)
    rw [← keeps_iff hlen (by omega), happlied]
    constructor
    · intro h
      exact .inl (h.kept _ rfl)
    · intro h
      have hkeeps := h.resolve_right hrefused
      refine ⟨fun out' hok => Except.ok.inj hok ▸ hkeeps, fun hlt => ?_⟩
      rw [keeps_iff hlen (by omega)] at hkeeps
      omega

end Apply

/-! ### The length of a function -/

namespace FunctionLength

def label : Riscv.SymtabEntry := ⟨true, none, 0⟩

/-- The first symbol is the end of a function, and the second one its start. -/
def link (length : UInt64) : Link (listOffsetMap 1) where
  layout := ⟨[], id, false, none⟩
  strings := ⟨fun _ => ⟨[], [], [], []⟩, fun _ => []⟩
  object :=
    { symbols := [label, label]
      sections := []
      sectionResolutions := []
      sectionIdRange := ⟨0, 0⟩
      sectionRelaxDeltas := fun _ => none
      mergedSymbolResolution := fun i =>
        some { rawValue := if i = 0 then 0x1000 + length else 0x1000 } }
  isSharedObject := false
  tlsStartAddress := 0
  tlsEndAddress := 0
  flagsForSymbol := fun _ => .empty
  unloaded := fun _ => false

def arch : Arch RiscVRelocationType := riscVArch fun _ => ""

def others : OtherRelocations RiscVRelocationType :=
  ⟨fun _ out => .ok out, fun _ _ => .ok 0, fun _ _ => .ok 0, fun _ _ => .ok 0, fun _ => 0⟩

def setRel : Riscv.Relocation RiscVRelocationType := ⟨0, .setUleb128, some 0, 0⟩

def subRel : Riscv.Relocation RiscVRelocationType := ⟨0, .subUleb128, some 1, 0⟩

/-- A length of 200 bytes as the assembler had it, and a byte that follows. -/
def table : List UInt8 := [0xc8, 0x01, 0x07]

theorem occupies_table : Occupies table 0 2 := ⟨by decide, 200, by decide⟩

def encode (value : BitVec 64) : List UInt8 := Uleb.encode value.toNat

end FunctionLength

open FunctionLength in
/-- A length that still takes two bytes. -/
theorem ulebPair_kept_iff_two_bytes :
    PairKept (applyUlebPair encode (link 196) arch others ⟨0x5000, false⟩ setRel subRel 0 table)
        table (0 : UInt64).toNat 2 (0x10c4 - 0x1000 : UInt64).toNat ↔
      Uleb.size (0x10c4 - 0x1000 : UInt64).toNat = 2 ∨
        PairRefused table (0 : UInt64).toNat (setValue others ⟨0x5000, false⟩ setRel 0x10c4 0)
          (0x10c4 - 0x1000) := by
  have hset : (link 196).address setRel = .ok 0x10c4 := rfl
  have hsub : (link 196).address subRel = .ok 0x1000 := rfl
  have hleb : ∀ value, encode value = Uleb.encode value.toNat := fun _ => rfl
  have hoffset : setRel.offset = subRel.offset := rfl
  exact ulebPair_kept_iff hleb (riscVUlebPair fun _ => "") rfl rfl hoffset hset hsub occupies_table

open FunctionLength in
/-- A function that became shorter than 128 bytes: its length takes one byte, and the byte that is
left of the old one is read as the next number. -/
theorem ulebPair_shrunk_not_kept :
    applyUlebPair encode (link 100) arch others ⟨0x5000, false⟩ setRel subRel 0 table =
        .ok [0x64, 0x01, 0x07] ∧
      ¬ PairKept (applyUlebPair encode (link 100) arch others ⟨0x5000, false⟩ setRel subRel 0 table)
        table 0 2 100 := by
  have hresult : applyUlebPair encode (link 100) arch others ⟨0x5000, false⟩ setRel subRel 0 table =
      .ok [0x64, 0x01, 0x07] := by rfl
  refine ⟨hresult, fun h => ?_⟩
  have hnumber := (h.kept _ hresult).number
  exact absurd hnumber (by decide)

end JdxLinker.Relocation
