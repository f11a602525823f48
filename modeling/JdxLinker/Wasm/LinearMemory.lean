import Mathlib.Tactic.Linarith
import JdxLinker.Wasm.DataSegments

/-!
# Linear memory

The stack lies before the data or after it, the heap after both, and the memory of the output is
made large enough for all of them. The memories of the objects are to be merged into that one
memory, which holds unless an object defines one that does not stand for all.
-/

namespace JdxLinker.Wasm

open Fallible

def wasmPageSize : Nat := 65536

def linkerMemoryBase : Nat := 1024

def stackAlignment : Alignment := ⟨4⟩

def wasm32AddressSpaceBytes : Nat := 2 ^ 32

def wasm32MaxInitialMemoryBytes : Nat := wasm32AddressSpaceBytes - wasmPageSize

structure WasmArgs where
  zStackSize : Nat
  stackFirst : Bool
  initialMemory : Option Nat
  maxMemory : Option Nat
  sharedMemory : Bool

/-! ### Stack and heap -/

/-- The end of the data, aligned, and the stack after it. -/
def stackHighAfterData (dataEnd stackSize : Nat) : Fallible Nat := do
  let stackBase ← tryU32 (stackAlignment.alignUp dataEnd) "Wasm stack base overflow"
  tryU32 (stackBase + stackSize) "Wasm stack pointer overflow"

def heapBaseAfterData (dataEnd : Nat) : Fallible Nat :=
  tryU32 (stackAlignment.alignUp dataEnd) "Wasm heap base overflow"

def ensureStackSizeAligned (stackSize : Nat) : Fallible Unit :=
  ensure (stackAlignment.value ∣ stackSize) "stack size must be 16-byte aligned"

/-- Where the stack pointer starts. -/
def stackPointerInit (dataEnd stackSize : Nat) (stackFirst : Bool) : Fallible Nat := do
  ensureStackSizeAligned stackSize
  if stackFirst then .ok stackSize else stackHighAfterData dataEnd stackSize

def heapBaseAddress (dataEnd stackSize : Nat) (stackFirst : Bool) : Fallible Nat :=
  if stackFirst then heapBaseAfterData dataEnd else stackHighAfterData dataEnd stackSize

/-! ### The memories -/

/-- The size of a memory in bytes, or the size that an import asks for. -/
def MemoryType.bytes (memory : MemoryType) : Nat :=
  memory.initial * 2 ^ memory.pageSizeLog2.getD 16

def importedMemories (inputs : List WasmObjectLayoutInput) : List MemoryType :=
  inputs.flatMap (·.memoryImports)

def definedMemories (inputs : List WasmObjectLayoutInput) : List MemoryType :=
  inputs.flatMap (·.memories)

def anyObjectNeedsLinkerMemory (inputs : List WasmObjectLayoutInput) : Bool :=
  inputs.any fun input => !input.memoryImports.isEmpty || !input.memories.isEmpty

/-- The largest initial size among some memories, and at least `start`. -/
def largestInitial (start : Nat) (memories : List MemoryType) : Nat :=
  memories.foldl (fun initial memory => max initial memory.initial) start

/-- The memory that the linker defines where no object does. -/
def linkerOutputMemoryType (inputs : List WasmObjectLayoutInput) (shared : Bool) : MemoryType where
  shared
  initial := largestInitial 2 (inputs.flatMap fun input => input.memoryImports ++ input.memories)

/-- How many bytes are used, by the data and by a stack after it. -/
def bytesUsed (args : WasmArgs) (memoryBase dataEnd : Nat) : Fallible Nat :=
  if args.stackFirst = false ∧ 0 < args.zStackSize then do
    let stackHigh ← stackHighAfterData dataEnd args.zStackSize
    .ok (max (max dataEnd memoryBase) stackHigh)
  else
    .ok (max dataEnd memoryBase)

/-- How many bytes the memory needs, which is what is asked for where that is enough. -/
def bytesNeeded (args : WasmArgs) (memoryBase dataEnd : Nat) : Fallible Nat := do
  let bytesNeeded ← bytesUsed args memoryBase dataEnd
  match args.initialMemory with
  | none => .ok bytesNeeded
  | some requested => do
      ensure (wasmPageSize ∣ requested) "initial memory must be aligned to the page size"
      ensure (requested ≤ wasm32MaxInitialMemoryBytes) "initial memory too large"
      ensure (bytesNeeded ≤ requested) "initial memory too small"
      .ok requested

def pagesNeeded (bytesNeeded : Nat) : Nat :=
  if 0 < bytesNeeded then max ((bytesNeeded + (wasmPageSize - 1)) / wasmPageSize) 1 else 0

/-- A memory with at least some number of pages. -/
def MemoryType.raise (pages : Nat) (memory : MemoryType) : MemoryType :=
  { memory with initial := max memory.initial pages }

def saturatingMul (a b : Nat) : Nat := min (a * b) (2 ^ 64 - 1)

def MemoryType.share (memory : MemoryType) : MemoryType :=
  { memory with
    shared := true
    maximum := some (max (memory.maximum.getD memory.initial) memory.initial) }

/-- The largest initial size among the memories. -/
def initialPages (memories : List MemoryType) : Nat := largestInitial 0 memories

def MemoryType.limit (pages : Nat) (memory : MemoryType) : MemoryType :=
  { memory with maximum := some pages }

/-- The memories with the maximum that is asked for. -/
def limitMemories (args : WasmArgs) (memories : List MemoryType) : Fallible (List MemoryType) :=
  match args.maxMemory with
  | none => .ok memories
  | some requested => do
      ensure (wasmPageSize ∣ requested) "maximum memory must be aligned to the page size"
      ensure (requested ≤ wasm32AddressSpaceBytes) "maximum memory too large"
      ensure (saturatingMul (initialPages memories) wasmPageSize ≤ requested)
        "maximum memory too small"
      .ok (memories.map (·.limit (requested / wasmPageSize)))

/-- The memories, made large enough, and the initial number of pages. -/
def ensureMemoryCovers (args : WasmArgs) (memories : List MemoryType) (memoryBase dataEnd : Nat) :
    Fallible (List MemoryType × Nat) := do
  let bytesNeeded ← bytesNeeded args memoryBase dataEnd
  let memories := memories.map (·.raise (pagesNeeded bytesNeeded))
  let limited ← limitMemories args memories
  .ok (if args.sharedMemory then limited.map MemoryType.share else limited, initialPages memories)

def heapEndFromInitialPages (initialPages : Nat) : Fallible Nat :=
  tryU32 (saturatingMul initialPages wasmPageSize) "Wasm initial memory size overflow"

/-! ### The layout -/

/-- The part of the module that is about memory. -/
structure WasmLayout where
  memories : List MemoryType
  memoryBase : Nat
  dataStart : Nat
  dataEnd : Nat
  objectDataLayouts : List (List WasmDataSegmentLayout)
  heapEnd : Nat
  stackPointer : Nat
  deriving DecidableEq, Repr

def checkStackSize (args : WasmArgs) : Fallible Unit :=
  if 0 < args.zStackSize then ensureStackSizeAligned args.zStackSize else .ok ()

/-- `needsMemoryBase` tells whether an object uses the symbol of the memory's base. -/
def buildOutputModuleLayout (args : WasmArgs) (needsMemoryBase : Bool)
    (inputs : List WasmObjectLayoutInput) : Fallible WasmLayout := do
  checkStackSize args
  let memoryBase :=
    if anyObjectNeedsLinkerMemory inputs || needsMemoryBase then linkerMemoryBase else 0
  let dataStart := if args.stackFirst then args.zStackSize else memoryBase
  let (objectDataLayouts, dataEnd) ← layoutAllData inputs dataStart
  let memories :=
    if definedMemories inputs = [] then [linkerOutputMemoryType inputs args.sharedMemory]
    else definedMemories inputs
  let (memories, initialPages) ← ensureMemoryCovers args memories memoryBase dataEnd
  let heapEnd ← heapEndFromInitialPages initialPages
  let stackPointer ← stackPointerInit dataEnd args.zStackSize args.stackFirst
  .ok { memories, memoryBase, dataStart, dataEnd, objectDataLayouts, heapEnd, stackPointer }

/-- A memory in which everything has its place. -/
structure SafeLayout (args : WasmArgs) (inputs : List WasmObjectLayoutInput) (layout : WasmLayout) :
    Prop where
  oneMemory : ∃ memory, layout.memories = [memory] ∧ memory.bytes = layout.heapEnd ∧
    ∀ asked ∈ importedMemories inputs ++ definedMemories inputs, asked.bytes ≤ memory.bytes
  placed : List.Forall₂ ObjectPlaced inputs layout.objectDataLayouts
  disjoint : layout.objectDataLayouts.flatten.Pairwise fun a b =>
    a.outputMemoryOffset + a.data.length ≤ b.outputMemoryOffset
  inside : ∀ segment ∈ layout.objectDataLayouts.flatten,
    layout.dataStart ≤ segment.outputMemoryOffset ∧
      segment.outputMemoryOffset + segment.data.length ≤ layout.dataEnd
  stackSize : args.zStackSize ≤ layout.stackPointer
  stackApart : layout.stackPointer ≤ layout.dataStart ∨
    layout.dataEnd ≤ layout.stackPointer - args.zStackSize
  stackAligned : 16 ∣ layout.stackPointer
  heap : ∃ heapBase, heapBaseAddress layout.dataEnd args.zStackSize args.stackFirst = .ok heapBase ∧
    16 ∣ heapBase ∧ layout.dataEnd ≤ heapBase ∧ heapBase ≤ layout.heapEnd

/-- The pages that the memory needs for data, stack and what is asked for on the command line. -/
def neededPages (args : WasmArgs) (layout : WasmLayout) : Nat :=
  match bytesNeeded args layout.memoryBase layout.dataEnd with
  | .ok bytes => pagesNeeded bytes
  | .error _ => 0

/-- The pages of the memory before it is made larger. -/
def startingPages (inputs : List WasmObjectLayoutInput) : Nat :=
  match definedMemories inputs with
  | [] => (linkerOutputMemoryType inputs false).initial
  | memory :: _ => memory.initial

/-- When one memory can stand for all: at most one is defined, with pages of the usual size, and
no import asks for more than it has. -/
structure MemoriesMerge (inputs : List WasmObjectLayoutInput) (needed : Nat) : Prop where
  atMostOne : (definedMemories inputs).length ≤ 1
  pageSize : ∀ memory ∈ definedMemories inputs, memory.pageSizeLog2.getD 16 = 16
  imports : ∀ asked ∈ importedMemories inputs,
    asked.bytes ≤ max (startingPages inputs) needed * wasmPageSize

/-! ### What a layout that succeeds has -/

theorem stackHighAfterData_eq_ok {dataEnd stackSize high : Nat} :
    stackHighAfterData dataEnd stackSize = .ok high ↔
      high = stackAlignment.alignUp dataEnd + stackSize ∧ high < 2 ^ 32 := by
  rw [stackHighAfterData, bind_eq_ok]
  simp only [tryU32_eq_ok]
  constructor
  · rintro ⟨stackBase, ⟨rfl, -⟩, rfl, hlt⟩
    exact ⟨rfl, hlt⟩
  · rintro ⟨rfl, hlt⟩
    exact ⟨_, ⟨rfl, by omega⟩, rfl, hlt⟩

theorem bytesNeeded_eq_ok {args : WasmArgs} {memoryBase dataEnd bytes : Nat}
    (h : bytesNeeded args memoryBase dataEnd = .ok bytes) :
    dataEnd ≤ bytes ∧ memoryBase ≤ bytes ∧
      (args.stackFirst = false → 0 < args.zStackSize →
        ∃ high, stackHighAfterData dataEnd args.zStackSize = .ok high ∧ high ≤ bytes) := by
  obtain ⟨bytes', hbytes', h⟩ := bind_eq_ok.mp h
  have hle : bytes' ≤ bytes := by
    cases hinitial : args.initialMemory with
    | none =>
        rw [hinitial] at h
        exact Nat.le_of_eq (Except.ok.inj h)
    | some requested =>
        rw [hinitial] at h
        obtain ⟨_, -, h⟩ := bind_eq_ok.mp h
        obtain ⟨_, -, h⟩ := bind_eq_ok.mp h
        obtain ⟨_, hsmall, h⟩ := bind_eq_ok.mp h
        cases h
        exact ensure_eq_ok.mp hsmall
  by_cases hstack : args.stackFirst = false ∧ 0 < args.zStackSize
  · rw [bytesUsed, if_pos hstack] at hbytes'
    obtain ⟨high, hhigh, hbytes'⟩ := bind_eq_ok.mp hbytes'
    cases hbytes'
    exact ⟨by omega, by omega, fun _ _ => ⟨high, hhigh, by omega⟩⟩
  · rw [bytesUsed, if_neg hstack] at hbytes'
    cases hbytes'
    exact ⟨by omega, by omega, fun hfirst hpos => absurd ⟨hfirst, hpos⟩ hstack⟩

/-- Whole pages are enough. -/
theorem le_pagesNeeded (bytes : Nat) : bytes ≤ pagesNeeded bytes * wasmPageSize := by
  rw [pagesNeeded, wasmPageSize]
  split <;> omega

/-- A memory that has been made larger, and has got a maximum, keeps the size of its pages. -/
theorem limitMemories_eq_ok {args : WasmArgs} {memories limited : List MemoryType}
    (h : limitMemories args memories = .ok limited) :
    limited.map (fun memory => (memory.initial, memory.pageSizeLog2)) =
      memories.map fun memory => (memory.initial, memory.pageSizeLog2) := by
  cases hmax : args.maxMemory with
  | none =>
      rw [limitMemories, hmax] at h
      cases h
      rfl
  | some requested =>
      rw [limitMemories, hmax] at h
      obtain ⟨_, -, h⟩ := bind_eq_ok.mp h
      obtain ⟨_, -, h⟩ := bind_eq_ok.mp h
      obtain ⟨_, -, h⟩ := bind_eq_ok.mp h
      cases h
      rw [List.map_map]
      rfl

theorem ensureMemoryCovers_eq_ok {args : WasmArgs} {memories memories' : List MemoryType}
    {memoryBase dataEnd pages : Nat}
    (h : ensureMemoryCovers args memories memoryBase dataEnd = .ok (memories', pages)) :
    ∃ bytes, bytesNeeded args memoryBase dataEnd = .ok bytes ∧
      memories'.map (fun memory => (memory.initial, memory.pageSizeLog2)) =
        memories.map (fun memory => (max memory.initial (pagesNeeded bytes), memory.pageSizeLog2)) ∧
      pages = initialPages (memories.map (·.raise (pagesNeeded bytes))) := by
  obtain ⟨bytes, hbytes, h⟩ := bind_eq_ok.mp h
  obtain ⟨limited, hlimited, h⟩ := bind_eq_ok.mp h
  refine ⟨bytes, hbytes, ?_, ?_⟩
  · have hsame := limitMemories_eq_ok hlimited
    rw [List.map_map] at hsame
    cases hshared : args.sharedMemory with
    | true =>
        rw [hshared, if_pos rfl] at h
        cases h
        rw [List.map_map]
        exact hsame
    | false =>
        rw [hshared, if_neg Bool.false_ne_true] at h
        cases h
        exact hsame
  · cases h
    rfl

/-- The memories before they are made larger. -/
def startingMemories (args : WasmArgs) (inputs : List WasmObjectLayoutInput) : List MemoryType :=
  if definedMemories inputs = [] then [linkerOutputMemoryType inputs args.sharedMemory]
  else definedMemories inputs

/-- What a layout that succeeds is made of. -/
structure Laid (args : WasmArgs) (inputs : List WasmObjectLayoutInput) (layout : WasmLayout)
    (bytes : Nat) : Prop where
  stackSize : 16 ∣ args.zStackSize
  memoryBase : definedMemories inputs ≠ [] → 0 < layout.memoryBase
  dataStart : args.stackFirst = true → layout.dataStart = args.zStackSize
  data : layoutAllData inputs layout.dataStart = .ok (layout.objectDataLayouts, layout.dataEnd)
  needed : bytesNeeded args layout.memoryBase layout.dataEnd = .ok bytes
  memories : layout.memories.map (fun memory => (memory.initial, memory.pageSizeLog2)) =
    (startingMemories args inputs).map fun memory =>
      (max memory.initial (pagesNeeded bytes), memory.pageSizeLog2)
  heapEnd : layout.heapEnd =
    initialPages ((startingMemories args inputs).map (·.raise (pagesNeeded bytes))) * wasmPageSize
  heapEndFits : layout.heapEnd < 2 ^ 32
  stackPointer :
    stackPointerInit layout.dataEnd args.zStackSize args.stackFirst = .ok layout.stackPointer

theorem memoryBase_pos {inputs : List WasmObjectLayoutInput} (h : definedMemories inputs ≠ [])
    (needsMemoryBase : Bool) :
    0 < if anyObjectNeedsLinkerMemory inputs || needsMemoryBase then linkerMemoryBase else 0 := by
  obtain ⟨memory, hmemory⟩ := List.exists_mem_of_ne_nil _ h
  obtain ⟨input, hinput, hmem⟩ := List.mem_flatMap.mp hmemory
  have hneeds : anyObjectNeedsLinkerMemory inputs = true := by
    apply List.any_eq_true.mpr
    refine ⟨input, hinput, ?_⟩
    cases hmemories : input.memories with
    | nil =>
        rw [hmemories] at hmem
        cases hmem
    | cons _ _ => simp
  rw [hneeds, Bool.true_or, if_pos rfl]
  decide

theorem heapEndFromInitialPages_eq_ok {pages heapEnd : Nat}
    (h : heapEndFromInitialPages pages = .ok heapEnd) :
    heapEnd = pages * wasmPageSize ∧ heapEnd < 2 ^ 32 := by
  obtain ⟨rfl, hlt⟩ := tryU32_eq_ok.mp h
  refine ⟨?_, hlt⟩
  rw [saturatingMul] at hlt ⊢
  omega

theorem buildOutputModuleLayout_eq_ok {args : WasmArgs} {needsMemoryBase : Bool}
    {inputs : List WasmObjectLayoutInput} {layout : WasmLayout}
    (h : buildOutputModuleLayout args needsMemoryBase inputs = .ok layout) :
    ∃ bytes, Laid args inputs layout bytes := by
  obtain ⟨_, hstack, h⟩ := bind_eq_ok.mp h
  obtain ⟨⟨placed, dataEnd⟩, hdata, h⟩ := bind_eq_ok.mp h
  obtain ⟨⟨memories, pages⟩, hmemories, h⟩ := bind_eq_ok.mp h
  obtain ⟨heapEnd, hheapEnd, h⟩ := bind_eq_ok.mp h
  obtain ⟨stackPointer, hstackPointer, h⟩ := bind_eq_ok.mp h
  cases h
  obtain ⟨bytes, hbytes, hmap, rfl⟩ := ensureMemoryCovers_eq_ok hmemories
  obtain ⟨hheap, hfits⟩ := heapEndFromInitialPages_eq_ok hheapEnd
  obtain ⟨_, haligned, -⟩ := bind_eq_ok.mp hstackPointer
  have hstackSize : stackAlignment.value ∣ args.zStackSize := ensure_eq_ok.mp haligned
  refine ⟨bytes, hstackSize, ?_, ?_, hdata, hbytes, hmap, hheap, hfits, hstackPointer⟩
  · intro hne
    exact memoryBase_pos hne _
  · intro hfirst
    exact if_pos hfirst

theorem le_largestInitial (start : Nat) (memories : List MemoryType) :
    start ≤ largestInitial start memories ∧
      ∀ memory ∈ memories, memory.initial ≤ largestInitial start memories := by
  induction memories generalizing start with
  | nil => exact ⟨Nat.le_refl _, fun _ hmem => absurd hmem List.not_mem_nil⟩
  | cons memory memories ih =>
      obtain ⟨hstart, hall⟩ := ih (max start memory.initial)
      rw [largestInitial, List.foldl_cons, ← largestInitial]
      refine ⟨by omega, ?_⟩
      intro other hother
      rcases List.mem_cons.mp hother with rfl | hother
      · omega
      · exact hall other hother

/-! ### Data, stack and heap -/

namespace Laid

variable {args : WasmArgs} {inputs : List WasmObjectLayoutInput} {layout : WasmLayout} {bytes : Nat}

theorem startingMemories_ne_nil (args : WasmArgs) (inputs : List WasmObjectLayoutInput) :
    startingMemories args inputs ≠ [] := by
  rw [startingMemories]
  split
  · exact List.cons_ne_nil _ _
  · assumption

theorem bytes_le_heapEnd (h : Laid args inputs layout bytes) : bytes ≤ layout.heapEnd := by
  obtain ⟨memory, hmemory⟩ := List.exists_mem_of_ne_nil _ (startingMemories_ne_nil args inputs)
  have hpages := (le_largestInitial 0 _).2 _
    (List.mem_map_of_mem (f := MemoryType.raise (pagesNeeded bytes)) hmemory)
  have hraise : pagesNeeded bytes ≤ (memory.raise (pagesNeeded bytes)).initial :=
    Nat.le_max_right _ _
  calc bytes ≤ pagesNeeded bytes * wasmPageSize := le_pagesNeeded bytes
    _ ≤ layout.heapEnd := by
        rw [h.heapEnd]
        exact Nat.mul_le_mul_right _ (hraise.trans hpages)

theorem alignUp_dataEnd_le (h : Laid args inputs layout bytes) :
    stackAlignment.alignUp layout.dataEnd ≤ layout.heapEnd := by
  apply Alignment.alignUp_le
  · exact (bytesNeeded_eq_ok h.needed).1.trans h.bytes_le_heapEnd
  · rw [h.heapEnd]
    exact Dvd.dvd.mul_left (by decide) _

/-- The stack after the data ends where the heap starts. -/
theorem stackHigh (h : Laid args inputs layout bytes) (hfirst : args.stackFirst = false) :
    layout.stackPointer = stackAlignment.alignUp layout.dataEnd + args.zStackSize ∧
      layout.stackPointer ≤ layout.heapEnd ∧
      stackHighAfterData layout.dataEnd args.zStackSize = .ok layout.stackPointer := by
  obtain ⟨_, -, hpointer⟩ := bind_eq_ok.mp h.stackPointer
  rw [hfirst, if_neg Bool.false_ne_true] at hpointer
  obtain ⟨heq, -⟩ := stackHighAfterData_eq_ok.mp hpointer
  refine ⟨heq, ?_, hpointer⟩
  rcases Nat.eq_zero_or_pos args.zStackSize with hzero | hpos
  · rw [heq, hzero]
    exact h.alignUp_dataEnd_le
  · obtain ⟨high, hhigh, hle⟩ := (bytesNeeded_eq_ok h.needed).2.2 hfirst hpos
    rw [hpointer] at hhigh
    cases hhigh
    exact hle.trans h.bytes_le_heapEnd

theorem stackLow (h : Laid args inputs layout bytes) (hfirst : args.stackFirst = true) :
    layout.stackPointer = args.zStackSize := by
  obtain ⟨_, -, hpointer⟩ := bind_eq_ok.mp h.stackPointer
  rw [hfirst, if_pos rfl] at hpointer
  exact (Except.ok.inj hpointer).symm

theorem exists_heapBase (h : Laid args inputs layout bytes) :
    ∃ heapBase,
      heapBaseAddress layout.dataEnd args.zStackSize args.stackFirst = .ok heapBase ∧
        16 ∣ heapBase ∧ layout.dataEnd ≤ heapBase ∧ heapBase ≤ layout.heapEnd := by
  have haligned : 16 ∣ stackAlignment.alignUp layout.dataEnd := Alignment.dvd_alignUp _ _
  have hle : layout.dataEnd ≤ stackAlignment.alignUp layout.dataEnd := Alignment.le_alignUp _ _
  cases hfirst : args.stackFirst with
  | true =>
      refine ⟨_, tryU32_eq_ok.mpr ⟨rfl, ?_⟩, haligned, hle, h.alignUp_dataEnd_le⟩
      exact Nat.lt_of_le_of_lt h.alignUp_dataEnd_le h.heapEndFits
  | false =>
      obtain ⟨heq, hend, hok⟩ := h.stackHigh hfirst
      refine ⟨layout.stackPointer, hok, ?_, ?_, hend⟩
      · rw [heq]
        exact Nat.dvd_add haligned h.stackSize
      · omega

/-- The stack is as large as it should be, and apart from the data. -/
theorem stackApart (h : Laid args inputs layout bytes) :
    args.zStackSize ≤ layout.stackPointer ∧
      (layout.stackPointer ≤ layout.dataStart ∨
        layout.dataEnd ≤ layout.stackPointer - args.zStackSize) ∧
      16 ∣ layout.stackPointer := by
  have haligned : 16 ∣ stackAlignment.alignUp layout.dataEnd := Alignment.dvd_alignUp _ _
  have hle : layout.dataEnd ≤ stackAlignment.alignUp layout.dataEnd := Alignment.le_alignUp _ _
  cases hfirst : args.stackFirst with
  | true =>
      rw [h.stackLow hfirst, h.dataStart hfirst]
      exact ⟨Nat.le_refl _, Or.inl (Nat.le_refl _), h.stackSize⟩
  | false =>
      rw [(h.stackHigh hfirst).1]
      refine ⟨Nat.le_add_left _ _, Or.inr ?_, Nat.dvd_add haligned h.stackSize⟩
      omega

/-- Everything but the memory itself is always as it should be. -/
theorem safeLayout (h : Laid args inputs layout bytes)
    (hmemory : ∃ memory, layout.memories = [memory] ∧ memory.bytes = layout.heapEnd ∧
      ∀ asked ∈ importedMemories inputs ++ definedMemories inputs, asked.bytes ≤ memory.bytes) :
    SafeLayout args inputs layout := by
  obtain ⟨hplaced, hwithin⟩ := layoutAllData_eq_ok h.data
  obtain ⟨hsize, hapart, haligned⟩ := h.stackApart
  exact ⟨hmemory, hplaced, hwithin.pairwise, fun _ hmem => hwithin.of_mem hmem, hsize, hapart,
    haligned, h.exists_heapBase⟩

/-! ### The one memory -/

theorem neededPages_eq (h : Laid args inputs layout bytes) :
    neededPages args layout = pagesNeeded bytes := by
  rw [neededPages, h.needed]

/-- Where there is one memory to start with, it becomes the memory of the output. -/
theorem exists_memory (h : Laid args inputs layout bytes) {start : MemoryType}
    (hstart : startingMemories args inputs = [start]) :
    ∃ memory, layout.memories = [memory] ∧
      memory.initial = max start.initial (pagesNeeded bytes) ∧
      memory.pageSizeLog2 = start.pageSizeLog2 ∧
      layout.heapEnd = memory.initial * wasmPageSize := by
  have hmemories := h.memories
  have hheapEnd := h.heapEnd
  rw [hstart] at hmemories hheapEnd
  cases hlayout : layout.memories with
  | nil =>
      rw [hlayout] at hmemories
      cases hmemories
  | cons memory rest =>
      rw [hlayout] at hmemories
      obtain ⟨hfirst, hrest⟩ := List.cons.inj hmemories
      obtain rfl := List.map_eq_nil_iff.mp hrest
      obtain ⟨hinitial, hlog⟩ := Prod.mk.inj hfirst
      refine ⟨memory, rfl, hinitial, hlog, ?_⟩
      rw [hheapEnd, hinitial]
      exact congrArg (· * wasmPageSize) (Nat.zero_max _)

/-- With one memory to start with, the memory of the output is as it should be if and only if its
pages have the usual size and it is large enough for the imports. -/
theorem safeLayout_iff_of_one (h : Laid args inputs layout bytes) {start : MemoryType}
    (hstart : startingMemories args inputs = [start])
    (hdefined : ∀ memory ∈ definedMemories inputs, memory = start)
    (hpos : 0 < max start.initial (pagesNeeded bytes)) :
    SafeLayout args inputs layout ↔
      start.pageSizeLog2.getD 16 = 16 ∧ ∀ asked ∈ importedMemories inputs,
        asked.bytes ≤ max start.initial (pagesNeeded bytes) * wasmPageSize := by
  obtain ⟨memory, hmemory, hinitial, hlog, hheapEnd⟩ := h.exists_memory hstart
  have hbytes : memory.bytes = memory.initial * 2 ^ start.pageSizeLog2.getD 16 := by
    rw [MemoryType.bytes, hlog]
  constructor
  · intro hsafe
    obtain ⟨memory', hmemory', hend, hasked⟩ := hsafe.oneMemory
    obtain rfl : memory = memory' := by
      rw [hmemory] at hmemory'
      exact (List.cons.inj hmemory').1
    refine ⟨?_, ?_⟩
    · rw [hbytes, hheapEnd] at hend
      have hpow : 2 ^ start.pageSizeLog2.getD 16 = 2 ^ 16 :=
        Nat.eq_of_mul_eq_mul_left (by rw [hinitial]; exact hpos) hend
      exact Nat.pow_right_injective (Nat.le_refl 2) hpow
    · intro asked hmem
      rw [← hinitial, ← hheapEnd, ← hend]
      exact hasked asked (List.mem_append_left _ hmem)
  · rintro ⟨hsize, himports⟩
    have hend : memory.bytes = layout.heapEnd := by
      rw [hbytes, hsize, hheapEnd]
      rfl
    refine h.safeLayout ⟨memory, hmemory, hend, ?_⟩
    intro asked hmem
    rcases List.mem_append.mp hmem with hmem | hmem
    · rw [hend, hheapEnd, hinitial]
      exact himports asked hmem
    · rw [hdefined asked hmem, hbytes, MemoryType.bytes, hinitial]
      exact Nat.mul_le_mul_right _ (Nat.le_max_left _ _)

end Laid

/-! ### When one memory stands for all -/

/-- A layout that succeeds is safe if and only if one memory can stand for all memories of the
objects. -/
theorem safeLayout_iff {args : WasmArgs} {needsMemoryBase : Bool}
    {inputs : List WasmObjectLayoutInput} {layout : WasmLayout}
    (h : buildOutputModuleLayout args needsMemoryBase inputs = .ok layout) :
    SafeLayout args inputs layout ↔ MemoriesMerge inputs (neededPages args layout) := by
  obtain ⟨bytes, hlaid⟩ := buildOutputModuleLayout_eq_ok h
  rw [hlaid.neededPages_eq]
  cases hdefined : definedMemories inputs with
  | nil =>
      have hstart : startingMemories args inputs =
          [linkerOutputMemoryType inputs args.sharedMemory] := by
        rw [startingMemories, if_pos hdefined]
      have hpages : 2 ≤ (linkerOutputMemoryType inputs args.sharedMemory).initial :=
        (le_largestInitial 2 _).1
      rw [hlaid.safeLayout_iff_of_one hstart (by simp [hdefined]) (by omega)]
      have hstarting : startingPages inputs =
          (linkerOutputMemoryType inputs args.sharedMemory).initial := by
        rw [startingPages, hdefined]
        rfl
      constructor
      · rintro ⟨-, himports⟩
        refine ⟨by simp [hdefined], by simp [hdefined], ?_⟩
        rw [hstarting]
        exact himports
      · intro hmerge
        refine ⟨rfl, ?_⟩
        rw [← hstarting]
        exact hmerge.imports
  | cons first rest =>
      have hne : definedMemories inputs ≠ [] := by
        rw [hdefined]
        exact List.cons_ne_nil _ _
      have hstart : startingMemories args inputs = first :: rest := by
        rw [startingMemories, if_neg hne, hdefined]
      cases rest with
      | nil =>
          have hpos : 0 < pagesNeeded bytes := by
            have hbase := hlaid.memoryBase hne
            have hbytes := (bytesNeeded_eq_ok hlaid.needed).2.1
            rw [pagesNeeded, if_pos (by omega)]
            exact Nat.lt_of_lt_of_le Nat.zero_lt_one (Nat.le_max_right _ _)
          have hstarting : startingPages inputs = first.initial := by
            rw [startingPages, hdefined]
          rw [hlaid.safeLayout_iff_of_one hstart (by simp [hdefined]) (by omega)]
          constructor
          · rintro ⟨hsize, himports⟩
            refine ⟨by simp [hdefined], by simpa [hdefined] using hsize, ?_⟩
            rw [hstarting]
            exact himports
          · intro hmerge
            refine ⟨hmerge.pageSize first (by simp [hdefined]), ?_⟩
            rw [← hstarting]
            exact hmerge.imports
      | cons second rest =>
          constructor
          · intro hsafe
            obtain ⟨memory, hmemory, -⟩ := hsafe.oneMemory
            have hlength := congrArg List.length hlaid.memories
            rw [hmemory, hstart] at hlength
            simp at hlength
          · intro hmerge
            have := hmerge.atMostOne
            rw [hdefined] at this
            simp at this

/-- The linker's own memory stands for all imports that have pages of at most the usual size. -/
theorem memoriesMerge_of_no_definition {inputs : List WasmObjectLayoutInput}
    (hdefined : definedMemories inputs = [])
    (hpages : ∀ asked ∈ importedMemories inputs, asked.pageSizeLog2.getD 16 ≤ 16) (needed : Nat) :
    MemoriesMerge inputs needed := by
  refine ⟨by simp [hdefined], by simp [hdefined], ?_⟩
  intro asked hasked
  have hinitial : asked.initial ≤ startingPages inputs := by
    rw [startingPages, hdefined]
    apply (le_largestInitial 2 _).2
    obtain ⟨input, hinput, hmem⟩ := List.mem_flatMap.mp hasked
    exact List.mem_flatMap.mpr ⟨input, hinput, List.mem_append_left _ hmem⟩
  calc asked.bytes ≤ asked.initial * 2 ^ 16 :=
        Nat.mul_le_mul_left _ (Nat.pow_le_pow_right (by decide) (hpages asked hasked))
    _ ≤ max (startingPages inputs) needed * wasmPageSize :=
        Nat.mul_le_mul_right _ (hinitial.trans (Nat.le_max_left _ _))

/-! ### Objects that define memories -/

namespace TwoMemories

def args : WasmArgs := ⟨65536, true, none, none, false⟩

/-- An object that imports a memory of one page and has one data segment. -/
def importing : WasmObjectLayoutInput where
  memoryImports := [{ initial := 1 }]
  memories := []
  dataSegments := [⟨.active 0, [1, 2, 3], 1, 8⟩]
  dataSegmentOriginalIndices := [0]
  segmentAlignments := [⟨2⟩]
  dataRelocations := []

/-- An object that defines a memory of one page. -/
def defining : WasmObjectLayoutInput where
  memoryImports := []
  memories := [{ initial := 1 }]
  dataSegments := []
  dataSegmentOriginalIndices := []
  segmentAlignments := []
  dataRelocations := []

def layout (memories : List MemoryType) (objectDataLayouts : List (List WasmDataSegmentLayout))
    (dataEnd heapEnd : Nat) : WasmLayout where
  memories
  memoryBase := 1024
  dataStart := 65536
  dataEnd
  objectDataLayouts
  heapEnd
  stackPointer := 65536

theorem build_importing : buildOutputModuleLayout args false [importing] =
    .ok (layout [{ initial := 2 }] [[⟨0, [1, 2, 3], (0, 0), 6, 0, 65536, 10⟩]] 65539 131072) := by
  decide +kernel

theorem build_defining : buildOutputModuleLayout args false [defining, defining] =
    .ok (layout [{ initial := 1 }, { initial := 1 }] [[], []] 65536 65536) := by
  decide +kernel

end TwoMemories

/-- An object that imports its memory gets one that is large enough. -/
theorem safeLayout_iff_importing :
    SafeLayout TwoMemories.args [TwoMemories.importing]
        (TwoMemories.layout [{ initial := 2 }] [[⟨0, [1, 2, 3], (0, 0), 6, 0, 65536, 10⟩]] 65539
          131072) ↔
      MemoriesMerge [TwoMemories.importing] (neededPages TwoMemories.args
        (TwoMemories.layout [{ initial := 2 }] [[⟨0, [1, 2, 3], (0, 0), 6, 0, 65536, 10⟩]] 65539
          131072)) :=
  safeLayout_iff TwoMemories.build_importing

/-- Two objects that each define a memory are linked to a module with two. -/
theorem safeLayout_counterexample : ∃ layout,
    buildOutputModuleLayout TwoMemories.args false [TwoMemories.defining, TwoMemories.defining] =
      .ok layout ∧
    layout.memories.length = 2 ∧
    ¬ SafeLayout TwoMemories.args [TwoMemories.defining, TwoMemories.defining] layout := by
  refine ⟨_, TwoMemories.build_defining, rfl, ?_⟩
  intro hsafe
  obtain ⟨memory, hmemory, -⟩ := hsafe.oneMemory
  have hlength := congrArg List.length hmemory
  cases hlength

end JdxLinker.Wasm
