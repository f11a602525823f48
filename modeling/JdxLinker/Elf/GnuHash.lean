import Mathlib
import JdxLinker.Elf.Class
import JdxLinker.Lib.Failure

/-!
# The GNU hash table

The table by which the dynamic linker finds a defined dynamic symbol from the hash of its name: a
bloom filter, for every bucket the index of its first symbol, and for every symbol its hash with the
low bit set at the end of a bucket. The symbols of a bucket have to be next to each other.
-/

namespace JdxLinker.Elf

inductive HashStyle where
  | gnu
  | sysv
  | both
  deriving Repr, DecidableEq

def HashStyle.includesGnu (style : HashStyle) : Bool := style != .sysv

def HashStyle.includesSysv (style : HashStyle) : Bool := style != .gnu

structure DynamicSymbolDefinition where
  name : List UInt8
  hash : UInt32
  deriving Repr, DecidableEq

def createDynamicSymbolDefinition (gnuHash : List UInt8 → UInt32) (name : List UInt8) :
    DynamicSymbolDefinition where
  name := name
  hash := gnuHash name

structure GnuHashLayout where
  numDefs : UInt32
  bucketCount : UInt32
  bloomShift : UInt32
  bloomCount : UInt32
  symbolBase : UInt32
  deriving Repr, DecidableEq

/-- The smallest power of two that is not below a number. -/
def nextPowerOfTwo (n : Nat) : Nat := if n ≤ 1 then 1 else 2 ^ ((n - 1).log2 + 1)

def GnuHashLayout.bucketForHash (layout : GnuHashLayout) (hash : UInt32) : UInt32 :=
  hash % layout.bucketCount

theorem nextPowerOfTwo_pos (n : Nat) : 0 < nextPowerOfTwo n := by
  unfold nextPowerOfTwo
  split
  · exact Nat.one_pos
  · exact Nat.two_pow_pos _

theorem nextPowerOfTwo_le {n k : Nat} (h : n ≤ 2 ^ k) : nextPowerOfTwo n ≤ 2 ^ k := by
  unfold nextPowerOfTwo
  split
  · exact Nat.one_le_two_pow
  · refine Nat.pow_le_pow_right (by decide) ?_
    have hlog : (n - 1).log2 < k := (Nat.log2_lt (by omega)).mpr (by omega)
    omega

/-- The order of the sort keys: the bucket, then the name. -/
def GnuHashLayout.keyLe (layout : GnuHashLayout) (a b : DynamicSymbolDefinition) : Bool :=
  decide (layout.bucketForHash a.hash < layout.bucketForHash b.hash) ||
    (layout.bucketForHash a.hash == layout.bucketForHash b.hash && !decide (b.name < a.name))

/-- The layout, and the definitions in the order that they get in the dynamic symbol table. -/
def createGnuHashLayout (style : HashStyle) (needsDynamic : Bool)
    (definitions : List DynamicSymbolDefinition) :
    Option GnuHashLayout × List DynamicSymbolDefinition :=
  if !style.includesGnu || !needsDynamic then
    (none, definitions)
  else
    let numDefs := definitions.length
    let layout : GnuHashLayout := {
      numDefs := UInt32.ofNat numDefs
      bucketCount := UInt32.ofNat (nextPowerOfTwo (numDefs / 2))
      bloomShift := 6
      bloomCount := 1
      symbolBase := 0 }
    (some layout, definitions.mergeSort layout.keyLe)

/-! ### Writing -/

def sizeOfGnuHashHeader : Nat := 16

def gnuHashBloomSize (C : ElfClass) : Nat := C.addressSize

/-- The bytes that `allocate` reserves. -/
def GnuHashLayout.byteSize (C : ElfClass) (layout : GnuHashLayout) : Nat :=
  sizeOfGnuHashHeader + gnuHashBloomSize C * layout.bloomCount.toNat
    + 4 * layout.bucketCount.toNat + 4 * layout.numDefs.toNat

/-- The table. A word of the bloom filter has the 64 bits of the class's addresses. -/
structure GnuHashTable where
  bucketCount : UInt32
  bloomShift : UInt32
  bloomCount : UInt32
  symbolBase : UInt32
  bloom : List UInt64
  buckets : List UInt32
  chains : List UInt32
  deriving Repr, DecidableEq

def elfClassBits (C : ElfClass) : UInt32 := UInt32.ofNat (C.addressSize * 8)

/-- The two bits of a hash in its word of the bloom filter. -/
def bloomBits (C : ElfClass) (bloomShift hash : UInt32) : UInt64 :=
  ((1 : UInt64) <<< (hash % elfClassBits C).toUInt64)
    ||| ((1 : UInt64) <<< ((hash >>> bloomShift) % elfClassBits C).toUInt64)

def bloomIndex (C : ElfClass) (bloomCount hash : UInt32) : Nat :=
  ((hash / elfClassBits C) % bloomCount).toNat

/-- Makes a symbol the first of its bucket. -/
def startChain (buckets : List UInt32) (bucket first : UInt32) : Fallible (List UInt32) := do
  Fallible.assert (bucket.toNat < buckets.length)
  pure (buckets.set bucket.toNat first)

/-- The loop over the chain values. -/
def writeGnuChains (C : ElfClass) (layout : GnuHashLayout) :
    Nat → Bool → List DynamicSymbolDefinition → List UInt64 → List UInt32 →
      Fallible (List UInt64 × List UInt32 × List UInt32)
  | _, _, [], bloom, buckets => pure (bloom, buckets, [])
  | i, startOfChain, definition :: definitions, bloom, buckets => do
      let hash := definition.hash
      let word ← Fallible.unwrap bloom[bloomIndex C layout.bloomCount hash]?
      let bloom := bloom.set (bloomIndex C layout.bloomCount hash)
        (word ||| bloomBits C layout.bloomShift hash)
      let bucket := layout.bucketForHash hash
      let buckets ←
        if startOfChain then
          startChain buckets bucket (UInt32.ofNat i + layout.symbolBase)
        else
          pure buckets
      let lastInChain := match definitions with
        | [] => true
        | next :: _ => layout.bucketForHash next.hash != bucket
      let chain := (hash &&& ~~~1) ||| (if lastInChain then 1 else 0)
      let (bloom, buckets, chains) ←
        writeGnuChains C layout (i + 1) lastInChain definitions bloom buckets
      pure (bloom, buckets, chain :: chains)

/-- Writes the table into a buffer of a number of bytes. -/
def writeGnuHashTables (C : ElfClass) (layout : GnuHashLayout)
    (definitions : List DynamicSymbolDefinition) (bufferLen : Nat) : Fallible GnuHashTable := do
  Fallible.ensure (sizeOfGnuHashHeader ≤ bufferLen) "Insufficient .gnu.hash allocation"
  let rest := bufferLen - sizeOfGnuHashHeader
  let bloomSize := layout.bloomCount.toNat * gnuHashBloomSize C
  Fallible.ensure (bloomSize ≤ rest) "Insufficient bytes for .gnu.hash bloom filter"
  let rest := rest - bloomSize
  Fallible.ensure (4 * layout.bucketCount.toNat ≤ rest) "Insufficient bytes for .gnu.hash buckets"
  let rest := rest - 4 * layout.bucketCount.toNat
  Fallible.ensure (4 * definitions.length ≤ rest) "Insufficient bytes for .gnu.hash chains"
  Fallible.assert (rest - 4 * definitions.length = 0)
  let (bloom, buckets, chains) ← writeGnuChains C layout 0 true definitions
    (List.replicate layout.bloomCount.toNat 0) (List.replicate layout.bucketCount.toNat 0)
  pure {
    bucketCount := layout.bucketCount
    bloomShift := layout.bloomShift
    bloomCount := layout.bloomCount
    symbolBase := layout.symbolBase
    bloom := bloom
    buckets := buckets
    chains := chains }

/-! ### Looking up a name -/

/-- What a lookup ends with; `outside` is a read beyond the table. -/
inductive Lookup where
  | found (index : Nat)
  | absent
  | outside
  deriving Repr, DecidableEq

/-- The walk along the chain values from an index of the dynamic symbol table on. -/
def gnuChainLookup (names : List (List UInt8)) (hash : UInt32) (name : List UInt8) :
    Nat → List UInt32 → Lookup
  | _, [] => .outside
  | index, chain :: chains =>
      if chain &&& ~~~1 = hash &&& ~~~1 ∧ names[index]? = some name then
        .found index
      else if chain &&& 1 = 1 then
        .absent
      else
        gnuChainLookup names hash name (index + 1) chains

/-- The lookup of the dynamic linker, given the names of the dynamic symbol table. -/
def gnuLookup (C : ElfClass) (table : GnuHashTable) (names : List (List UInt8)) (hash : UInt32)
    (name : List UInt8) : Lookup :=
  match table.bloom[bloomIndex C table.bloomCount hash]?,
      table.buckets[(hash % table.bucketCount).toNat]? with
  | some word, some first =>
      if word &&& bloomBits C table.bloomShift hash ≠ bloomBits C table.bloomShift hash then
        .absent
      else if first = 0 then
        .absent
      else if first < table.symbolBase then
        .outside
      else
        gnuChainLookup names hash name first.toNat
          (table.chains.drop (first.toNat - table.symbolBase.toNat))
  | _, _ => .outside

end JdxLinker.Elf

/-!
## The System V hash table

The older table by which the dynamic linker finds a dynamic symbol from the hash of its name: for
every bucket the index of its first symbol, and for every dynamic symbol the index of the next one in
its bucket. Undefined symbols have a place among the chains, but are in no bucket.
-/

namespace JdxLinker.Elf

structure SysvHashLayout where
  bucketCount : UInt32
  chainCount : UInt32
  deriving Repr, DecidableEq

def SysvHashLayout.byteSize (layout : SysvHashLayout) : Nat :=
  (2 + layout.bucketCount.toNat + layout.chainCount.toNat) * 4

/-- The reservation, from the number of dynamic symbols that space was allocated for. -/
def allocateSysvHash (numDynsym : Nat) (definitions : List DynamicSymbolDefinition) :
    Fallible (Option SysvHashLayout) :=
  let numDefs := definitions.length
  if numDefs = 0 then
    pure none
  else do
    Fallible.ensure (numDynsym < UInt32.size) "Too many dynamic symbols for .hash"
    pure (some {
      bucketCount := UInt32.ofNat (nextPowerOfTwo (max (numDefs / 2) 1))
      chainCount := UInt32.ofNat numDynsym })

/-- The chain count as `finalise_layout_epilogue` sets it. -/
def finaliseSysvHash (layout : SysvHashLayout) (dynsymStartIndex : UInt32)
    (definitions : List DynamicSymbolDefinition) : Fallible SysvHashLayout := do
  let additional := UInt32.ofNat definitions.length
  Fallible.ensure (dynsymStartIndex.toNat + additional.toNat < UInt32.size)
    "Too many dynamic symbols for .hash"
  pure { layout with chainCount := dynsymStartIndex + additional }

/-! ### Writing -/

structure SysvHashTable where
  bucketCount : UInt32
  chainCount : UInt32
  buckets : List UInt32
  chains : List UInt32
  deriving Repr, DecidableEq

structure SysvState where
  buckets : List UInt32
  chains : List UInt32
  lastInBucket : List (Option Nat)
  deriving Repr, DecidableEq

/-- Puts a symbol at the end of its bucket. -/
def insertSysv (sysvHash : List UInt8 → UInt32) (layout : SysvHashLayout)
    (dynsymStartIndex : UInt32) (state : SysvState) (i : Nat)
    (definition : DynamicSymbolDefinition) : Fallible SysvState := do
  Fallible.ensure (i < UInt32.size) "Too many dynamic symbols for .hash"
  Fallible.ensure (dynsymStartIndex.toNat + i < UInt32.size) "Too many dynamic symbols for .hash"
  let symIndex := dynsymStartIndex + UInt32.ofNat i
  let bucket := (sysvHash definition.name % layout.bucketCount).toNat
  let first ← Fallible.unwrap state.buckets[bucket]?
  let last ← Fallible.unwrap state.lastInBucket[bucket]?
  if first = 0 then
    pure {
      buckets := state.buckets.set bucket symIndex
      chains := state.chains
      lastInBucket := state.lastInBucket.set bucket (some symIndex.toNat) }
  else do
    let last ← Fallible.context last "Invalid .hash bucket chain construction"
    Fallible.assert (last < state.chains.length)
    pure {
      buckets := state.buckets
      chains := state.chains.set last symIndex
      lastInBucket := state.lastInBucket.set bucket (some symIndex.toNat) }

def insertAllSysv (sysvHash : List UInt8 → UInt32) (layout : SysvHashLayout)
    (dynsymStartIndex : UInt32) :
    SysvState → Nat → List DynamicSymbolDefinition → Fallible SysvState
  | state, _, [] => pure state
  | state, i, definition :: definitions => do
      let state ← insertSysv sysvHash layout dynsymStartIndex state i definition
      insertAllSysv sysvHash layout dynsymStartIndex state (i + 1) definitions

/-- Writes the table into a buffer of a number of bytes; a table without buckets or chains is not
written. -/
def writeSysvHashTable (sysvHash : List UInt8 → UInt32) (layout : SysvHashLayout)
    (dynsymStartIndex : UInt32) (definitions : List DynamicSymbolDefinition) (bufferLen : Nat) :
    Fallible (Option SysvHashTable) :=
  if layout.bucketCount = 0 ∨ layout.chainCount = 0 then
    pure none
  else do
    Fallible.ensure (layout.byteSize ≤ bufferLen) "Insufficient .hash allocation"
    let state ← insertAllSysv sysvHash layout dynsymStartIndex {
      buckets := List.replicate layout.bucketCount.toNat 0
      chains := List.replicate layout.chainCount.toNat 0
      lastInBucket := List.replicate layout.bucketCount.toNat none } 0 definitions
    pure (some {
      bucketCount := layout.bucketCount
      chainCount := layout.chainCount
      buckets := state.buckets
      chains := state.chains })

/-! ### Looking up a name -/

/-- The walk along a bucket from an index on. A table has no longer walks than chains. -/
def sysvChainLookup (table : SysvHashTable) (names : List (List UInt8)) (name : List UInt8) :
    Nat → UInt32 → Lookup
  | 0, _ => .outside
  | steps + 1, index =>
      if index = 0 then
        .absent
      else
        match names[index.toNat]?, table.chains[index.toNat]? with
        | some other, some next =>
            if other = name then .found index.toNat else sysvChainLookup table names name steps next
        | _, _ => .outside

def sysvLookup (table : SysvHashTable) (names : List (List UInt8)) (hash : UInt32)
    (name : List UInt8) : Lookup :=
  match table.buckets[(hash % table.bucketCount).toNat]? with
  | some index => sysvChainLookup table names name (table.chains.length + 1) index
  | none => .outside

end JdxLinker.Elf
