import JdxLinker.Lib.Bytes
import JdxLinker.Lib.Failure
import JdxLinker.Lib.HashTable
import JdxLinker.Lib.Uleb
import JdxLinker.Lib.Utf8

/-!
# The RISC-V attributes section

Every RISC-V object says in a section of its own which extensions it was built for and what it
assumes of the machine. The linker reads the attributes of all objects, merges them and writes one
section.
-/

namespace JdxLinker.Riscv

/-- The LEB128 numbers of another package. -/
structure Leb128 where
  read : List UInt8 → Fallible (Nat × List UInt8)
  write : Nat → List UInt8
  unsignedLen : Nat → Nat

/-- What the code relies on: 64-bit numbers come back from their bytes, whose number is known
before, and reading takes at least one byte. -/
structure Leb128.Lawful (leb : Leb128) : Prop where
  read_write : ∀ n < 2 ^ 64, ∀ rest, leb.read (leb.write n ++ rest) = .ok (n, rest)
  write_length : ∀ n < 2 ^ 64, (leb.write n).length = leb.unsignedLen n
  unsignedLen_small : ∀ n < 128, leb.unsignedLen n = 1
  read_ok : ∀ bytes n rest, leb.read bytes = .ok (n, rest) →
    n < 2 ^ 64 ∧ rest.length < bytes.length

/-- Numbers of 64 bits at most. -/
def uleb : Leb128 where
  read bytes :=
    match Uleb.decode bytes with
    | none => .error (.error "failed to fill whole buffer")
    | some (n, rest) =>
        if n < 2 ^ 64 then .ok (n, rest) else .error (.error "The number being read is larger than can be represented")
  write := Uleb.encode
  unsignedLen := Uleb.size

theorem uleb_decode_length {bytes rest : List UInt8} {n : Nat}
    (h : Uleb.decode bytes = some (n, rest)) : rest.length < bytes.length := by
  induction bytes generalizing n with
  | nil => cases h
  | cons byte bytes ih =>
      rw [Uleb.decode] at h
      split at h
      · cases h
        exact Nat.lt_succ_self _
      · split at h
        · rename_i hrest
          cases h
          exact Nat.lt_succ_of_lt (ih hrest)
        · cases h

theorem uleb_lawful : uleb.Lawful where
  read_write n hn rest := by simp only [uleb, Uleb.decode_encode, if_pos hn]
  write_length n _ := Uleb.encode_length n
  unsignedLen_small n hn := by
    have hle : Uleb.size n ≤ 1 := Uleb.size_le_of_lt (by decide) (by simpa using hn)
    have hpos := Uleb.size_pos n
    show Uleb.size n = 1
    omega
  read_ok bytes n rest h := by
    simp only [uleb] at h
    split at h
    · cases h
    · rename_i hdecode
      split at h
      · rename_i hlt
        cases h
        exact ⟨hlt, uleb_decode_length hdecode⟩
      · cases h

/-- A string, as its characters. -/
abbrev Chars := List Char

/-- An error with what was being done. -/
def inContext {α : Type} (message : String) : Fallible α → Fallible α
  | .error (.error cause) => .error (.error (message ++ ": " ++ cause))
  | step => step

/-! ### Attributes -/

/-- The extensions and their major and minor versions, in the order in which they were inserted. -/
structure RiscVArch where
  map : HashTable Chars (Nat × Nat)

inductive RiscVAttribute where
  | stackAlign (align : Nat)
  | arch (arch : RiscVArch)
  | unalignedAccess (access : Bool)
  | privilegedSpecMajor (version : Nat)
  | privilegedSpecMinor (version : Nat)
  | privilegedSpecRevision (version : Nat)

structure RiscVAttributes where
  attributes : List RiscVAttribute
  sectionSize : Nat

def componentString (component : Chars × Nat × Nat) : Chars :=
  component.1 ++ Nat.toDigits 10 component.2.1 ++ 'p' :: Nat.toDigits 10 component.2.2

def RiscVArch.toAttributeString (arch : RiscVArch) : Chars :=
  ['_'].intercalate (arch.map.entries.map componentString)

def riscvAttributeVendorName : Chars := "riscv".toList

def tagRiscvWholeFile : Nat := 1

def tagRiscvStackAlign : Nat := 4

def tagRiscvArch : Nat := 5

def tagRiscvUnalignedAccess : Nat := 6

def tagRiscvPrivSpec : Nat := 8

def tagRiscvPrivSpecMinor : Nat := 10

def tagRiscvPrivSpecRevision : Nat := 12

def tagRiscvAtomicAbi : Nat := 14

def tagRiscvX3RegUsage : Nat := 16

/-! ### Reading -/

def readU32 (content : List UInt8) : Fallible (Nat × List UInt8) :=
  if content.length < 4 then
    .error (.error "Not enough bytes to read u32")
  else
    .ok (Bytes.readLe (content.take 4), content.drop 4)

def readString (content : List UInt8) : Fallible (Chars × List UInt8) :=
  match content.findIdx? (· == 0) with
  | none => .error (.error "No null terminator found in string")
  | some i => .ok ((Utf8.fromUtf8Lossy (content.take i)).toList, content.drop (i + 1))

/-- The number that a string of one character stands for. -/
def parseDigit (c : Char) : Fallible Nat :=
  if c.isDigit then .ok (c.toNat - '0'.toNat)
  else .error (.error "invalid digit found in string")

/-- One extension, read backwards: a character for the minor version, the separator, a character for
the major version, and the name. -/
def parseComponent (part : Chars) : Fallible (Chars × Nat × Nat) :=
  match part.reverse with
  | [] => .error (.error "Cannot parse minor")
  | [_] => .error (.error "Cannot parse 'p' separator")
  | minor :: p :: rest => do
      Fallible.ensure (p = 'p') "Separator expected"
      match rest with
      | [] => .error (.error "Cannot parse major")
      | major :: name => do
          let major ← parseDigit major
          let minor ← parseDigit minor
          return (name.reverse, major, minor)

def insertComponent (map : HashTable Chars (Nat × Nat)) (part : Chars) :
    Fallible (HashTable Chars (Nat × Nat)) := do
  let (name, version) ← parseComponent part
  return map.update name fun _ => version

def parseArch (arch : Chars) : Fallible RiscVArch := do
  let map ← (arch.splitOn '_').foldlM insertComponent HashTable.empty
  return ⟨map⟩

variable (leb : Leb128)

def readUleb128 (content : List UInt8) : Fallible (Nat × List UInt8) :=
  inContext "Failed to read ULEB128 value" (leb.read content)

/-- An attribute that is a number. -/
def readNumber (context : String) (make : Nat → RiscVAttribute) (content : List UInt8) :
    Fallible (RiscVAttribute × List UInt8) := do
  let (n, content) ← inContext context (readUleb128 leb content)
  return (make n, content)

/-- An attribute that the linker knows and refuses. -/
def refuse (context message : String) (content : List UInt8) :
    Fallible (RiscVAttribute × List UInt8) := do
  let _ ← inContext context (readUleb128 leb content)
  .error (.error message)

def readArch (content : List UInt8) : Fallible (RiscVAttribute × List UInt8) := do
  let (arch, content) ← inContext "Cannot read arch attributes" (readString content)
  let arch ← parseArch arch
  return (.arch arch, content)

def readTagged (tag : Nat) : List UInt8 → Fallible (RiscVAttribute × List UInt8) :=
  if tag = tagRiscvStackAlign then readNumber leb "Cannot read stack alignment" .stackAlign
  else if tag = tagRiscvArch then readArch
  else if tag = tagRiscvUnalignedAccess then
    readNumber leb "Cannot read unaligned access" fun access => .unalignedAccess (0 < access)
  else if tag = tagRiscvPrivSpec then
    readNumber leb "Cannot read privileged major version" .privilegedSpecMajor
  else if tag = tagRiscvPrivSpecMinor then
    readNumber leb "Cannot read privileged minor version" .privilegedSpecMinor
  else if tag = tagRiscvPrivSpecRevision then
    readNumber leb "Cannot read privileged revision version" .privilegedSpecRevision
  else if tag = tagRiscvAtomicAbi then
    refuse leb "Cannot read atomic ABI" "TAG_RISCV_ATOMIC_ABI is not supported yet"
  else if tag = tagRiscvX3RegUsage then
    refuse leb "Cannot read x3 register usage" "TAG_RISCV_X3_REG_USAGE is not supported yet"
  else fun _ => .error (.error ("Unsupported tag: " ++ toString tag))

def readAttribute (content : List UInt8) : Fallible (RiscVAttribute × List UInt8) := do
  let (tag, content) ← inContext "Cannot read tag of sub-subsection" (readUleb128 leb content)
  readTagged leb tag content

/-- The attributes up to the end of the content. Every attribute takes at least one byte, so the
content's length is fuel enough. -/
def readAttributes : Nat → List UInt8 → Fallible (List RiscVAttribute)
  | _, [] => .ok []
  | 0, _ :: _ => .error .panic
  | fuel + 1, content@(_ :: _) => do
      let (first, content) ← readAttribute leb content
      let attributes ← readAttributes fuel content
      return first :: attributes

def processRiscvAttributes (content : List UInt8) : Fallible (List RiscVAttribute) := do
  Fallible.ensure (content.head? = some 'A'.toUInt8) "Header must start with 'A'"
  let content := content.drop 1
  -- Expect only one subsection
  let (_, content) ← readU32 content
  let (vendor, content) ← inContext "Cannot read vendor string" (readString content)
  Fallible.ensure (vendor = riscvAttributeVendorName)
    ("Unsupported vendor ('" ++ (String.ofList vendor).quote ++ "') subsection")
  -- Assume only one sub-sub-section
  let (tag, content) ← inContext "Cannot read tag of subsection" (readUleb128 leb content)
  Fallible.ensure (tag = tagRiscvWholeFile) "Whole file tag expected"
  let (_, content) ← readU32 content
  readAttributes leb content.length content

/-! ### Merging -/

def versionMax (v w : Nat × Nat) : Nat × Nat :=
  if w.1 < v.1 ∨ (w.1 = v.1 ∧ w.2 < v.2) then v else w

def RiscVAttribute.arch? : RiscVAttribute → Option RiscVArch
  | .arch isa => some isa
  | _ => none

def RiscVAttribute.stackAlign? : RiscVAttribute → Option Nat
  | .stackAlign align => some align
  | _ => none

def RiscVAttribute.unalignedAccess? : RiscVAttribute → Option Bool
  | .unalignedAccess access => some access
  | _ => none

def RiscVAttribute.privilegedSpecMajor? : RiscVAttribute → Option Nat
  | .privilegedSpecMajor version => some version
  | _ => none

def RiscVAttribute.privilegedSpecMinor? : RiscVAttribute → Option Nat
  | .privilegedSpecMinor version => some version
  | _ => none

def RiscVAttribute.privilegedSpecRevision? : RiscVAttribute → Option Nat
  | .privilegedSpecRevision version => some version
  | _ => none

/-- Conflicting pairs of RISC-V ISA extensions. -/
def riscvConflictingExtPairs : List (String × String) :=
  [("f", "zfinx"), ("d", "zdinx"), ("q", "zqinx"), ("zfh", "zhinx"), ("zfhmin", "zhinxmin")]

def verifyRiscvExtConflicts (archComponents : HashTable Chars (Nat × Nat)) : Fallible Unit :=
  let contains (name : String) : Bool := (archComponents.get? name.toList).isSome
  let conflicts := (riscvConflictingExtPairs.filter fun pair =>
    contains pair.1 && contains pair.2).map fun pair =>
      "'" ++ pair.1 ++ "' is incompatible with '" ++ pair.2 ++ "'"
  Fallible.ensure (conflicts = [])
    ("Conflicting RISC-V ISA extensions in merged .riscv.attributes:\n  - "
      ++ "\n  - ".intercalate conflicts)

def mergeComponent (map : HashTable Chars (Nat × Nat)) (component : Chars × Nat × Nat) :
    HashTable Chars (Nat × Nat) :=
  map.update component.1 fun old => (old.map (versionMax · component.2)).getD component.2

def mergeArchs (archs : List RiscVArch) : HashTable Chars (Nat × Nat) :=
  (archs.flatMap (·.map.entries)).foldl mergeComponent HashTable.empty

def attributeSize : RiscVAttribute → Nat
  | .stackAlign align => leb.unsignedLen tagRiscvStackAlign + leb.unsignedLen align
  | .arch arch =>
      leb.unsignedLen tagRiscvArch + (Utf8.encode arch.toAttributeString).length + 1
  | .unalignedAccess _ => leb.unsignedLen tagRiscvUnalignedAccess + 1
  | .privilegedSpecMajor version => leb.unsignedLen tagRiscvPrivSpec + leb.unsignedLen version
  | .privilegedSpecMinor version =>
      leb.unsignedLen tagRiscvPrivSpecMinor + leb.unsignedLen version
  | .privilegedSpecRevision version =>
      leb.unsignedLen tagRiscvPrivSpecRevision + leb.unsignedLen version

def riscvAttributesSectionSize (attributes : List RiscVAttribute) : Nat :=
  if attributes = [] then 0
  else 1 + 4 + leb.unsignedLen tagRiscvWholeFile + 4
    + ((Utf8.encode riscvAttributeVendorName).length + 1)
    + (attributes.map (attributeSize leb)).sum

/-- The attributes of the objects in one list. -/
def mergedAttributes (attributes : List RiscVAttribute) : List RiscVAttribute :=
  let archComponents := mergeArchs (attributes.filterMap (·.arch?))
  (if archComponents.entries = [] then [] else [.arch ⟨archComponents⟩])
    ++ ((attributes.filterMap (·.stackAlign?)).max?.map .stackAlign).toList
    ++ ((attributes.filterMap (·.unalignedAccess?)).max?.map .unalignedAccess).toList
    ++ ((attributes.filterMap (·.privilegedSpecMajor?)).max?.map .privilegedSpecMajor).toList
    ++ ((attributes.filterMap (·.privilegedSpecMinor?)).max?.map .privilegedSpecMinor).toList
    ++ ((attributes.filterMap (·.privilegedSpecRevision?)).max?.map .privilegedSpecRevision).toList

def mergeRiscvAttributes (states : List (List RiscVAttribute)) : Fallible RiscVAttributes := do
  -- Sort by the number of ISAs: better output ordering
  let attributes := (states.mergeSort fun a b => a.length ≤ b.length).reverse.flatten
  verifyRiscvExtConflicts (mergeArchs (attributes.filterMap (·.arch?)))
  let merged := mergedAttributes attributes
  return { attributes := merged, sectionSize := riscvAttributesSectionSize leb merged }

/-! ### Writing -/

def writeAttribute : RiscVAttribute → List UInt8
  | .stackAlign align => leb.write tagRiscvStackAlign ++ leb.write align
  | .arch arch => leb.write tagRiscvArch ++ (Utf8.encode arch.toAttributeString ++ [0])
  | .unalignedAccess access =>
      leb.write tagRiscvUnalignedAccess ++ leb.write (if access then 1 else 0)
  | .privilegedSpecMajor version => leb.write tagRiscvPrivSpec ++ leb.write version
  | .privilegedSpecMinor version => leb.write tagRiscvPrivSpecMinor ++ leb.write version
  | .privilegedSpecRevision version => leb.write tagRiscvPrivSpecRevision ++ leb.write version

/-- A 32-bit difference, which wraps. -/
def wrappingSub (a b : Nat) : Nat := (a % 2 ^ 32 + (2 ^ 32 - b)) % 2 ^ 32

/-- The bytes that are written one after the other. -/
def riscvAttributesBytes (layout : RiscVAttributes) : List UInt8 :=
  let vendor := Utf8.encode riscvAttributeVendorName
  let length := layout.sectionSize % 2 ^ 32
  ['A'.toUInt8] ++ Bytes.leBytes 4 (wrappingSub length 1) ++ vendor ++ [0]
    ++ leb.write tagRiscvWholeFile
    ++ Bytes.leBytes 4 (wrappingSub length (1 + 4 + vendor.length + 1))
    ++ layout.attributes.flatMap (writeAttribute leb)

/-- The section after the write. The buffer has the size that the section was given. -/
def writeRiscvAttributes (layout : RiscVAttributes) (buffer : List UInt8) :
    Fallible (List UInt8) :=
  let bytes := riscvAttributesBytes leb layout
  if buffer.length < bytes.length then
    .error (.error "failed to write whole buffer")
  else
    .ok (bytes ++ buffer.drop bytes.length)

end JdxLinker.Riscv
