import JdxLinker.Layout.Alignment
import JdxLinker.Lib.Failure
import JdxLinker.Lib.Placement
import JdxLinker.Lib.Uleb

/-!
# Data segments in linear memory

The active data segments of the objects are placed one after the other, each at the next address
that has its alignment.
-/

namespace JdxLinker.Wasm

open Fallible

/-- A number that has to fit in 32 bits. -/
def tryU32 (x : Nat) (message : String) : Fallible Nat :=
  if x < 2 ^ 32 then .ok x else .error (.error message)

theorem tryU32_eq_ok {x y : Nat} {message : String} :
    tryU32 x message = .ok y ↔ x = y ∧ x < 2 ^ 32 := by
  rw [tryU32]
  by_cases h : x < 2 ^ 32
  · rw [if_pos h, Except.ok.injEq]
    exact ⟨fun heq => ⟨heq, h⟩, fun hboth => hboth.1⟩
  · rw [if_neg h]
    exact ⟨fun herror => (nomatch herror), fun hboth => absurd hboth.2 h⟩

structure MemoryType where
  memory64 : Bool := false
  shared : Bool := false
  initial : Nat
  maximum : Option Nat := none
  pageSizeLog2 : Option Nat := none
  deriving DecidableEq, Repr

inductive DataKind where
  | passive
  | active (memoryIndex : Nat)

structure WasmDataSegment where
  kind : DataKind
  data : List UInt8
  sectionOffset : Nat
  encodedSize : Nat

structure WasmObjectLayoutInput where
  memoryImports : List MemoryType
  memories : List MemoryType
  dataSegments : List WasmDataSegment
  dataSegmentOriginalIndices : List Nat
  segmentAlignments : List Alignment
  /-- The offsets of the data relocations, in order. -/
  dataRelocations : List Nat

structure WasmDataSegmentLayout where
  segmentIndex : Nat
  data : List UInt8
  relocRange : Nat × Nat
  payloadStart : Nat
  outputMemoryIndex : Nat
  outputMemoryOffset : Nat
  encodedOutputSize : Nat
  deriving DecidableEq, Repr

/-- The mark of an index that was removed. -/
def wasmDeadIndex : Nat := 2 ^ 32 - 1

def remapWasmIndex (indices : List Nat) (index : Nat) (kind : String) : Fallible Nat := do
  let mapped ← context indices[index]? ("Wasm " ++ kind ++ " index out of range")
  ensure (mapped ≠ wasmDeadIndex) ("Wasm " ++ kind ++ " index was removed by GC")
  .ok mapped

/-! ### Sizes and relocation ranges -/

/-- The number of bytes that a number takes as a signed LEB128 number. -/
def sleb128Size (n : Nat) : Nat := (n.log2 + 1) / 7 + 1

/-- The length of the offset expression: `i32.const`, the number, `end`. -/
def outputI32ConstInitExprSize (offset : Nat) : Nat := 1 + sleb128Size offset + 1

def outputDataSegmentEncodedSize (kind : DataKind) (dataLen outputMemoryOffset
    outputMemoryIndex : Nat) : Fallible Nat := do
  let dataLen ← tryU32 dataLen "Wasm data segment too large"
  let payloadLen := (Uleb.size dataLen + dataLen) % 2 ^ 32
  match kind with
  | .passive => .error (.error "passive data segments are not emitted")
  | .active _ =>
      let initLen := outputI32ConstInitExprSize outputMemoryOffset
      let header := if outputMemoryIndex = 0 then 1 else 1 + Uleb.size outputMemoryIndex
      tryU32 (header + initLen + payloadLen) "Wasm data segment size overflow"

def saturatingAdd (a b : Nat) : Nat := min (a + b) (2 ^ 32 - 1)

/-- Where the bytes of a segment start in the input section. -/
def payloadStartOf (segment : WasmDataSegment) : Nat :=
  let dataLen := min segment.data.length (2 ^ 32 - 1)
  saturatingAdd segment.sectionOffset (segment.encodedSize - dataLen)

/-- Moves past the relocations before an offset. -/
def skipBefore (offset : Nat) : List Nat → Nat → List Nat × Nat
  | [], i => ([], i)
  | r :: relocs, i => if r < offset then skipBefore offset relocs (i + 1) else (r :: relocs, i)

/-- The range of relocations of each segment, and where its bytes start in the input section. -/
def classifyFrom : List WasmDataSegment → List Nat → Nat → List ((Nat × Nat) × Nat)
  | [], _, _ => []
  | segment :: segments, relocs, i =>
      let payloadStart := payloadStartOf segment
      let stop := saturatingAdd segment.sectionOffset segment.encodedSize
      let first := skipBefore payloadStart relocs i
      let last := skipBefore stop first.1 first.2
      ((first.2, last.2), payloadStart) :: classifyFrom segments last.1 last.2

def classifyDataRelocRanges (segments : List WasmDataSegment) (relocs : List Nat) :
    List ((Nat × Nat) × Nat) :=
  if relocs = [] then
    segments.map fun segment => ((0, 0), payloadStartOf segment)
  else
    classifyFrom segments relocs 0

/-! ### Placing the segments -/

namespace WasmObjectLayoutInput

variable (input : WasmObjectLayoutInput)

/-- The memories that the object imports or defines are all the one memory of the output. -/
def memoryIndices : List Nat := List.replicate (input.memoryImports.length + input.memories.length) 0

/-- The index that a segment had in the object. -/
def originalIndex (filteredIdx : Nat) : Nat :=
  input.dataSegmentOriginalIndices[filteredIdx]?.getD filteredIdx

/-- The alignment that the object asks for. -/
def segmentAlignment (originalIndex : Nat) : Alignment :=
  input.segmentAlignments[originalIndex]?.getD ⟨0⟩

/-- Places one segment, and moves past it. -/
def layoutSegment (ranges : List ((Nat × Nat) × Nat)) (filteredIdx : Nat)
    (segment : WasmDataSegment) (memoryCursor : Nat) : Fallible (WasmDataSegmentLayout × Nat) := do
  match segment.kind with
  | .passive => .error (.error "passive data segments are not emitted")
  | .active memoryIndex =>
      let outputMemoryIndex ← remapWasmIndex input.memoryIndices memoryIndex "memory"
      let originalIndex := input.originalIndex filteredIdx
      let outputMemoryOffset ← tryU32
        ((input.segmentAlignment originalIndex).alignUp memoryCursor)
        "Wasm data segment alignment overflow"
      let encodedOutputSize ← outputDataSegmentEncodedSize segment.kind segment.data.length
        outputMemoryOffset outputMemoryIndex
      let dataLen ← tryU32 segment.data.length "Wasm data segment too large"
      let memoryCursor ← tryU32 (outputMemoryOffset + dataLen) "Wasm output memory offset overflow"
      let range := ranges[filteredIdx]?.getD ((0, 0), 0)
      .ok (⟨originalIndex, segment.data, range.1, range.2, outputMemoryIndex, outputMemoryOffset,
        encodedOutputSize⟩, memoryCursor)

/-- Places the segments from one index on. -/
def layoutSegments (ranges : List ((Nat × Nat) × Nat)) (filteredIdx : Nat) :
    List WasmDataSegment → Nat → Fallible (List WasmDataSegmentLayout × Nat)
  | [], memoryCursor => .ok ([], memoryCursor)
  | segment :: segments, memoryCursor => do
      let (placed, memoryCursor) ← input.layoutSegment ranges filteredIdx segment memoryCursor
      let (rest, memoryCursor) ← layoutSegments ranges (filteredIdx + 1) segments memoryCursor
      .ok (placed :: rest, memoryCursor)

def layoutObjectData (memoryCursor : Nat) : Fallible (List WasmDataSegmentLayout × Nat) :=
  input.layoutSegments (classifyDataRelocRanges input.dataSegments input.dataRelocations) 0
    input.dataSegments memoryCursor

end WasmObjectLayoutInput

/-- The segments of all objects, one object after the other. -/
def layoutAllData : List WasmObjectLayoutInput → Nat →
    Fallible (List (List WasmDataSegmentLayout) × Nat)
  | [], memoryCursor => .ok ([], memoryCursor)
  | input :: inputs, memoryCursor => do
      let (placed, memoryCursor) ← input.layoutObjectData memoryCursor
      let (rest, memoryCursor) ← layoutAllData inputs memoryCursor
      .ok (placed :: rest, memoryCursor)

/-! ### Where the segments are -/

/-- The segments lie between two addresses, each above the one before it. -/
def SegmentsWithin (low : Nat) (segments : List WasmDataSegmentLayout) (high : Nat) : Prop :=
  Stacked.Within (·.outputMemoryOffset) (·.data.length) low segments high

/-- What the layout of an object's segments keeps of them. -/
structure ObjectPlaced (input : WasmObjectLayoutInput) (placed : List WasmDataSegmentLayout) :
    Prop where
  data : placed.map (·.data) = input.dataSegments.map (·.data)
  indices : placed.map (·.segmentIndex) =
    (List.range input.dataSegments.length).map input.originalIndex
  aligned : ∀ segment ∈ placed,
    (input.segmentAlignment segment.segmentIndex).value ∣ segment.outputMemoryOffset

namespace WasmObjectLayoutInput

variable {input : WasmObjectLayoutInput}

theorem layoutSegment_eq_ok {ranges : List ((Nat × Nat) × Nat)} {filteredIdx cursor cursor' : Nat}
    {segment : WasmDataSegment} {placed : WasmDataSegmentLayout}
    (h : input.layoutSegment ranges filteredIdx segment cursor = .ok (placed, cursor')) :
    placed.data = segment.data ∧ placed.segmentIndex = input.originalIndex filteredIdx ∧
      (input.segmentAlignment placed.segmentIndex).value ∣ placed.outputMemoryOffset ∧
      cursor ≤ placed.outputMemoryOffset ∧
      cursor' = placed.outputMemoryOffset + placed.data.length ∧ cursor' < 2 ^ 32 := by
  rw [layoutSegment] at h
  cases hkind : segment.kind with
  | passive =>
      rw [hkind] at h
      cases h
  | active memoryIndex =>
      rw [hkind] at h
      obtain ⟨outputMemoryIndex, -, h⟩ := bind_eq_ok.mp h
      obtain ⟨outputMemoryOffset, hoffset, h⟩ := bind_eq_ok.mp h
      obtain ⟨encodedOutputSize, -, h⟩ := bind_eq_ok.mp h
      obtain ⟨dataLen, hdataLen, h⟩ := bind_eq_ok.mp h
      obtain ⟨next, hnext, h⟩ := bind_eq_ok.mp h
      obtain ⟨rfl, -⟩ := tryU32_eq_ok.mp hoffset
      obtain ⟨rfl, -⟩ := tryU32_eq_ok.mp hdataLen
      obtain ⟨rfl, hlt⟩ := tryU32_eq_ok.mp hnext
      cases h
      exact ⟨rfl, rfl, Alignment.dvd_alignUp _ _, Alignment.le_alignUp _ _, rfl, hlt⟩

theorem layoutSegments_eq_ok {ranges : List ((Nat × Nat) × Nat)} {filteredIdx : Nat}
    {segments : List WasmDataSegment} {cursor cursor' : Nat} {placed : List WasmDataSegmentLayout}
    (h : input.layoutSegments ranges filteredIdx segments cursor = .ok (placed, cursor')) :
    placed.map (·.data) = segments.map (·.data) ∧
      placed.map (·.segmentIndex) =
        (List.range' filteredIdx segments.length).map input.originalIndex ∧
      (∀ segment ∈ placed,
        (input.segmentAlignment segment.segmentIndex).value ∣ segment.outputMemoryOffset) ∧
      SegmentsWithin cursor placed cursor' := by
  induction segments generalizing filteredIdx cursor placed with
  | nil =>
      cases h
      exact ⟨rfl, rfl, fun _ hmem => absurd hmem List.not_mem_nil, Nat.le_refl _⟩
  | cons segment segments ih =>
      obtain ⟨⟨first, next⟩, hfirst, h⟩ := bind_eq_ok.mp h
      obtain ⟨⟨rest, last⟩, hrest, h⟩ := bind_eq_ok.mp h
      cases h
      obtain ⟨hdata, hindex, haligned, hle, hnext, -⟩ := layoutSegment_eq_ok hfirst
      obtain ⟨hdatas, hindices, haligneds, hwithin⟩ := ih hrest
      refine ⟨?_, ?_, ?_, hle, ?_⟩
      · rw [List.map_cons, List.map_cons, hdata, hdatas]
      · rw [List.map_cons, List.length_cons, List.range'_succ, List.map_cons, hindex, hindices]
      · intro other hother
        rcases List.mem_cons.mp hother with rfl | hother
        · exact haligned
        · exact haligneds other hother
      · rw [← hnext]
        exact hwithin

theorem layoutObjectData_eq_ok {cursor cursor' : Nat} {placed : List WasmDataSegmentLayout}
    (h : input.layoutObjectData cursor = .ok (placed, cursor')) :
    ObjectPlaced input placed ∧ SegmentsWithin cursor placed cursor' := by
  obtain ⟨hdata, hindices, haligned, hwithin⟩ := layoutSegments_eq_ok h
  refine ⟨⟨hdata, ?_, haligned⟩, hwithin⟩
  rw [hindices, List.range_eq_range']

end WasmObjectLayoutInput

theorem layoutAllData_eq_ok {inputs : List WasmObjectLayoutInput} {cursor cursor' : Nat}
    {placed : List (List WasmDataSegmentLayout)}
    (h : layoutAllData inputs cursor = .ok (placed, cursor')) :
    List.Forall₂ ObjectPlaced inputs placed ∧ SegmentsWithin cursor placed.flatten cursor' := by
  induction inputs generalizing cursor placed with
  | nil =>
      cases h
      exact ⟨List.Forall₂.nil, Nat.le_refl _⟩
  | cons input inputs ih =>
      obtain ⟨⟨first, next⟩, hfirst, h⟩ := bind_eq_ok.mp h
      obtain ⟨⟨rest, last⟩, hrest, h⟩ := bind_eq_ok.mp h
      cases h
      obtain ⟨hplaced, hwithin⟩ := WasmObjectLayoutInput.layoutObjectData_eq_ok hfirst
      obtain ⟨hplaceds, hwithins⟩ := ih hrest
      exact ⟨List.Forall₂.cons hplaced hplaceds, hwithin.append hwithins⟩

end JdxLinker.Wasm
