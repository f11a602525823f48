import JdxLinker.Symtab.ObjectSymbols

/-!
# The writer of symbol tables

A writer owns a run of local entries, a run of global entries and a run of string bytes, and uses
each of them from its start. What it has written is kept beside the space that is left.
-/

namespace JdxLinker.Symtab

open Fallible
open Resolution (Name RawSymbolName)

/-- A run of entries of which the first ones are written. -/
structure EntryTable (α : Type) where
  written : List α
  left : Nat
  deriving Repr, DecidableEq

namespace EntryTable

variable {α : Type}

/-- Uses the first unwritten entry. -/
def push (table : EntryTable α) (a : α) : EntryTable α := ⟨table.written ++ [a], table.left - 1⟩

/-- Changes the entry that was written last. -/
def replaceLast (table : EntryTable α) (a : α) : EntryTable α :=
  { table with written := table.written.dropLast ++ [a] }

def capacity (table : EntryTable α) : Nat := table.written.length + table.left

theorem push_capacity {table : EntryTable α} (h : 0 < table.left) (a : α) :
    (table.push a).capacity = table.capacity := by
  simp only [push, capacity, List.length_append, List.length_singleton]
  omega

@[simp] theorem replaceLast_push (table : EntryTable α) (a b : α) :
    (table.push a).replaceLast b = table.push b := by
  simp [push, replaceLast]

@[simp] theorem replaceLast_replaceLast (table : EntryTable α) (a b : α) :
    (table.replaceLast a).replaceLast b = table.replaceLast b := by
  simp [replaceLast]

end EntryTable

/-- The strings that were written, and the offset in the table at which the next one goes. -/
structure StrTabWriter where
  nextOffset : UInt32
  written : List UInt8
  left : Nat
  deriving Repr, DecidableEq

/-- Writes a string with its terminator. Returns the offset at which the string was written. -/
def StrTabWriter.writeStr (writer : StrTabWriter) (str : Name) : Fallible (UInt32 × StrTabWriter) :=
  do
    assert (str.length + 1 ≤ writer.left)
    .ok (writer.nextOffset,
      { nextOffset := writer.nextOffset + UInt32.ofNat (str.length + 1)
        written := writer.written ++ (str ++ [0])
        left := writer.left - (str.length + 1) })

structure SymbolTableWriter where
  localEntries : EntryTable SymtabEntry
  globalEntries : EntryTable SymtabEntry
  strtabWriter : StrTabWriter
  isDynamic : Bool
  symtabShndxLocalEntries : Option (EntryTable UInt32)
  symtabShndxGlobalEntries : Option (EntryTable UInt32)
  deriving Repr, DecidableEq

inductive SymbolSection where
  | raw (shndx : UInt16)
  | index (index : UInt32)

namespace SymbolTableWriter

def entries (writer : SymbolTableWriter) (isLocal : Bool) : EntryTable SymtabEntry :=
  if isLocal then writer.localEntries else writer.globalEntries

def withEntries (writer : SymbolTableWriter) (isLocal : Bool) (entries : EntryTable SymtabEntry) :
    SymbolTableWriter :=
  if isLocal then { writer with localEntries := entries }
  else { writer with globalEntries := entries }

def shndxEntries (writer : SymbolTableWriter) (isLocal : Bool) : Option (EntryTable UInt32) :=
  if isLocal then writer.symtabShndxLocalEntries else writer.symtabShndxGlobalEntries

def withShndxEntries (writer : SymbolTableWriter) (isLocal : Bool)
    (entries : Option (EntryTable UInt32)) : SymbolTableWriter :=
  if isLocal then { writer with symtabShndxLocalEntries := entries }
  else { writer with symtabShndxGlobalEntries := entries }

end SymbolTableWriter

/-- The section field of an entry, and what goes to the table of extended indexes. -/
def SymbolSection.indexAndShndx : SymbolSection → UInt32 × UInt16
  | .raw shndx => (0, shndx)
  | .index i => if i < SHN_LORESERVE then (0, i.toUInt16) else (i, SHN_XINDEX)

/-- Writes the extended index of a symbol, where the output has such a table. -/
def writeShndx (entries : Option (EntryTable UInt32)) (index : UInt32) (shndx : UInt16) :
    Fallible (Option (EntryTable UInt32)) :=
  match entries.filter fun table => 0 < table.left with
  | some table => .ok (some (table.push index))
  | none =>
    if shndx = SHN_XINDEX then .error (.error "Expected .symtab_shndx section when writing symbol")
    else .ok entries

/-- Whether a number fits in a field of a symbol table entry. -/
def fitsWord (addressSize : Nat) (value : UInt64) : Prop := value.toNat < 2 ^ (8 * addressSize)

instance (addressSize : Nat) (value : UInt64) : Decidable (fitsWord addressSize value) :=
  inferInstanceAs (Decidable (_ < _))

namespace SymbolTableWriter

/-- The name that goes to the string table. The versions of dynamic symbols are stored elsewhere. -/
def nameToWrite (writer : SymbolTableWriter) (name : Name) : Name :=
  if writer.isDynamic then (RawSymbolName.parse name).name else symtabNameForStrtab name

/-- The writer after an entry, its name and its extended index. -/
def withSymbol (writer : SymbolTableWriter) (isLocal : Bool) (strtabWriter : StrTabWriter)
    (shndxEntries : Option (EntryTable UInt32)) (entry : SymtabEntry) : SymbolTableWriter :=
  { writer with strtabWriter }
    |>.withEntries isLocal ((writer.entries isLocal).push entry)
    |>.withShndxEntries isLocal shndxEntries

/-- Writes the next entry of a half of the table. Returns the entry, which the caller may go on to
change. -/
def defineSymbol (addressSize : Nat) (writer : SymbolTableWriter) (isLocal : Bool)
    (place : SymbolSection) (value size : UInt64) (name : Name) :
    Fallible (SymtabEntry × SymbolTableWriter) := do
  ensure (0 < (writer.entries isLocal).left) "Insufficient entries allocated for symbol"
  let (stringOffset, strtabWriter) ← writer.strtabWriter.writeStr (writer.nameToWrite name)
  let (index, shndx) := place.indexAndShndx
  let shndxEntries ← writeShndx (writer.shndxEntries isLocal) index shndx
  ensure (fitsWord addressSize value) "Value doesn't fit in symbol table entry"
  ensure (fitsWord addressSize size) "Size doesn't fit in symbol table entry"
  let entry : SymtabEntry :=
    { stName := stringOffset, stInfo := 0, stOther := 0, stShndx := shndx, stValue := value
      stSize := size }
  .ok (entry, writer.withSymbol isLocal strtabWriter shndxEntries entry)

/-- Changes the entry that was written last, through the reference that `defineSymbol` returned. -/
def updateLast (writer : SymbolTableWriter) (isLocal : Bool) (entry : SymtabEntry) :
    SymbolTableWriter :=
  writer.withEntries isLocal ((writer.entries isLocal).replaceLast entry)

/-- What a symbol keeps of its input entry. Symbols that a version script downgraded to local ones
get a local binding. -/
def copyInfo (sym : SymtabEntry) (flags : ValueFlags) (entry : SymtabEntry) : SymtabEntry :=
  let copied := { entry with stInfo := sym.stInfo, stOther := sym.stOther }
  if flags.downgradeToLocal then copied.setBindingAndType STB_LOCAL sym.stType else copied

def copySymbolShndx (addressSize : Nat) (writer : SymbolTableWriter) (sym : SymtabEntry)
    (name : Name) (shndx : UInt32) (value : UInt64) (flags : ValueFlags) :
    Fallible (SymtabEntry × SymbolTableWriter) := do
  let isLocal := isSymtabLocal flags sym
  let (entry, writer) ← writer.defineSymbol addressSize isLocal (.index shndx) value sym.stSize name
  let entry := copyInfo sym flags entry
  .ok (entry, writer.updateLast isLocal entry)

def copyAbsoluteSymbol (addressSize : Nat) (writer : SymbolTableWriter) (sym : SymtabEntry)
    (name : Name) (flags : ValueFlags) : Fallible (SymtabEntry × SymbolTableWriter) := do
  let isLocal := isSymtabLocal flags sym
  let (entry, writer) ←
    writer.defineSymbol addressSize isLocal (.raw SHN_ABS) sym.stValue sym.stSize name
  let entry := copyInfo sym flags entry
  .ok (entry, writer.updateLast isLocal entry)

def undefinedSymbol (addressSize : Nat) (writer : SymbolTableWriter) (isLocal : Bool)
    (name : Name) : Fallible (SymtabEntry × SymbolTableWriter) :=
  writer.defineSymbol addressSize isLocal (.raw SHN_UNDEF) 0 0 name

end SymbolTableWriter

/-! ### What a step writes -/

namespace SymbolTableWriter

/-- The space that is left. -/
def unwritten (writer : SymbolTableWriter) : SymtabSpace :=
  ⟨writer.localEntries.left, writer.globalEntries.left, writer.strtabWriter.left⟩

/-- The entry names a string of the table, which ends there. -/
def Names (start : UInt32) (strings : List UInt8) (entry : SymtabEntry) : Prop :=
  ∃ before name after : List UInt8, strings = before ++ (name ++ 0 :: after) ∧
    entry.stName = start + UInt32.ofNat before.length

/-- Every entry that was written names a string. -/
structure Complete (start : UInt32) (writer : SymbolTableWriter) : Prop where
  nextOffset : writer.strtabWriter.nextOffset
    = start + UInt32.ofNat writer.strtabWriter.written.length
  names : ∀ isLocal, ∀ entry ∈ (writer.entries isLocal).written,
    Names start writer.strtabWriter.written entry

/-- The writer has used up some space after another one, and left nothing out. -/
structure Follows (writer writer' : SymbolTableWriter) (used : SymtabSpace) : Prop where
  unwritten : writer.unwritten = writer'.unwritten + used
  capacity : ∀ isLocal, (writer'.entries isLocal).capacity = (writer.entries isLocal).capacity
  isDynamic : writer'.isDynamic = writer.isDynamic
  complete : ∀ start, writer.Complete start → writer'.Complete start

theorem Follows.refl (writer : SymbolTableWriter) : Follows writer writer 0 :=
  ⟨(add_zero _).symm, fun _ => rfl, rfl, fun _ h => h⟩

theorem Follows.trans {w w' w'' : SymbolTableWriter} {used used' : SymtabSpace}
    (h : Follows w w' used) (h' : Follows w' w'' used') : Follows w w'' (used + used') := by
  refine ⟨?_, fun isLocal => (h'.capacity isLocal).trans (h.capacity isLocal),
    h'.isDynamic.trans h.isDynamic, fun start hcomplete => h'.complete start (h.complete start hcomplete)⟩
  rw [h.unwritten, h'.unwritten, add_assoc, add_comm used' used]

@[simp] theorem entry_locals (isLocal : Bool) (name : Name) :
    (SymtabSpace.entry isLocal name).locals = if isLocal then 1 else 0 := rfl

@[simp] theorem entry_globals (isLocal : Bool) (name : Name) :
    (SymtabSpace.entry isLocal name).globals = if isLocal then 0 else 1 := rfl

@[simp] theorem entry_strings (isLocal : Bool) (name : Name) :
    (SymtabSpace.entry isLocal name).strings = name.length + 1 := rfl

/-- What writing a string leaves behind. -/
theorem writeStr_eq_ok {writer writer' : StrTabWriter} {str : Name} {offset : UInt32}
    (h : writer.writeStr str = .ok (offset, writer')) :
    offset = writer.nextOffset ∧ writer.left = writer'.left + (str.length + 1) ∧
      writer'.written = writer.written ++ (str ++ [0]) ∧
      writer'.nextOffset = writer.nextOffset + UInt32.ofNat (str.length + 1) := by
  obtain ⟨_, hroom, h⟩ := bind_eq_ok.mp h
  have hroom := assert_eq_ok.mp hroom
  cases h
  refine ⟨rfl, ?_, rfl, rfl⟩
  show writer.left = writer.left - (str.length + 1) + (str.length + 1)
  omega

/-- Strings that were written stay where they are. -/
theorem Names.append {start : UInt32} {strings : List UInt8} {entry : SymtabEntry}
    (h : Names start strings entry) (more : List UInt8) : Names start (strings ++ more) entry := by
  obtain ⟨before, name, after, rfl, hname⟩ := h
  refine ⟨before, name, after ++ more, ?_, hname⟩
  simp only [List.append_assoc, List.cons_append]

theorem defineSymbol_eq_ok {addressSize : Nat} {w w' : SymbolTableWriter} {isLocal : Bool}
    {place : SymbolSection} {value size : UInt64} {name : Name} {entry : SymtabEntry}
    (h : w.defineSymbol addressSize isLocal place value size name = .ok (entry, w')) :
    ∃ strtab shndxEntries, 0 < (w.entries isLocal).left ∧
      w.strtabWriter.writeStr (w.nameToWrite name) = .ok (entry.stName, strtab) ∧
      w' = w.withSymbol isLocal strtab shndxEntries entry := by
  obtain ⟨_, hroom, h⟩ := bind_eq_ok.mp h
  obtain ⟨⟨offset, strtab⟩, hstring, h⟩ := bind_eq_ok.mp h
  obtain ⟨shndxEntries, -, h⟩ := bind_eq_ok.mp h
  obtain ⟨_, -, h⟩ := bind_eq_ok.mp h
  obtain ⟨_, -, h⟩ := bind_eq_ok.mp h
  cases h
  exact ⟨strtab, shndxEntries, ensure_eq_ok.mp hroom, hstring, rfl⟩

section WithSymbol

variable (w : SymbolTableWriter) (isLocal : Bool) (strtab : StrTabWriter)
  (shndxEntries : Option (EntryTable UInt32)) (entry entry' : SymtabEntry)

theorem entries_withSymbol :
    (w.withSymbol isLocal strtab shndxEntries entry).entries isLocal
      = (w.entries isLocal).push entry := by
  cases isLocal <;> rfl

theorem entries_withSymbol_of_ne (other : Bool) (h : other ≠ isLocal) :
    (w.withSymbol isLocal strtab shndxEntries entry).entries other = w.entries other := by
  cases isLocal <;> cases other <;> first | rfl | exact absurd rfl h

theorem strtabWriter_withSymbol :
    (w.withSymbol isLocal strtab shndxEntries entry).strtabWriter = strtab := by
  cases isLocal <;> rfl

theorem isDynamic_withSymbol :
    (w.withSymbol isLocal strtab shndxEntries entry).isDynamic = w.isDynamic := by
  cases isLocal <;> rfl

theorem updateLast_withSymbol :
    (w.withSymbol isLocal strtab shndxEntries entry).updateLast isLocal entry'
      = w.withSymbol isLocal strtab shndxEntries entry' := by
  cases isLocal <;> simp [updateLast, withSymbol, withEntries, withShndxEntries, entries]

end WithSymbol

/-- The space that is left, read through the two halves of the table. -/
theorem unwritten_eq (w : SymbolTableWriter) :
    w.unwritten = ⟨(w.entries true).left, (w.entries false).left, w.strtabWriter.left⟩ := rfl

/-- The writer has defined a symbol, whose entry may be changed as long as it keeps its name. -/
def Defines (w w' : SymbolTableWriter) (isLocal : Bool) (name : Name) (entry : SymtabEntry) : Prop :=
  ∃ defined : SymbolTableWriter, w' = defined.updateLast isLocal entry ∧
    ∀ entry' : SymtabEntry, entry'.stName = entry.stName →
      Follows w (defined.updateLast isLocal entry') (.entry isLocal (w.nameToWrite name))

theorem Defines.follows {w w' : SymbolTableWriter} {isLocal : Bool} {name : Name}
    {entry : SymtabEntry} (h : Defines w w' isLocal name entry) :
    Follows w w' (.entry isLocal (w.nameToWrite name)) := by
  obtain ⟨defined, rfl, hfollows⟩ := h
  exact hfollows entry rfl

theorem updateLast_updateLast (w : SymbolTableWriter) (isLocal : Bool)
    (entry entry' : SymtabEntry) :
    (w.updateLast isLocal entry).updateLast isLocal entry' = w.updateLast isLocal entry' := by
  cases isLocal <;> simp [updateLast, withEntries, entries]

theorem Defines.update {w w' : SymbolTableWriter} {isLocal : Bool} {name : Name}
    {entry : SymtabEntry} (h : Defines w w' isLocal name entry) (entry' : SymtabEntry)
    (hname : entry'.stName = entry.stName) :
    Defines w (w'.updateLast isLocal entry') isLocal name entry' := by
  obtain ⟨defined, rfl, hfollows⟩ := h
  refine ⟨defined, updateLast_updateLast .., ?_⟩
  intro entry'' hname'
  exact hfollows entry'' (hname'.trans hname)

/-- One entry and its name are what the writer used. -/
theorem follows_withSymbol {w : SymbolTableWriter} {isLocal : Bool} {name : Name}
    {strtab : StrTabWriter} {offset : UInt32} (shndxEntries : Option (EntryTable UInt32))
    (hroom : 0 < (w.entries isLocal).left)
    (hstring : w.strtabWriter.writeStr name = .ok (offset, strtab)) {entry : SymtabEntry}
    (hname : entry.stName = offset) :
    Follows w (w.withSymbol isLocal strtab shndxEntries entry) (.entry isLocal name) := by
  obtain ⟨hoffset, hleft, hwritten, hnext⟩ := writeStr_eq_ok hstring
  have hother := entries_withSymbol_of_ne w isLocal strtab shndxEntries entry
  refine ⟨?_, ?_, isDynamic_withSymbol .., ?_⟩
  · rw [unwritten_eq, unwritten_eq, strtabWriter_withSymbol]
    cases isLocal with
    | true =>
        rw [entries_withSymbol, hother false Bool.false_ne_true]
        ext
        · show (w.entries true).left = (w.entries true).left - 1 + 1
          omega
        · rfl
        · exact hleft
    | false =>
        rw [entries_withSymbol, hother true Bool.false_ne_true.symm]
        ext
        · rfl
        · show (w.entries false).left = (w.entries false).left - 1 + 1
          omega
        · exact hleft
  · intro other
    rcases eq_or_ne other isLocal with rfl | hne
    · rw [entries_withSymbol, EntryTable.push_capacity hroom]
    · rw [hother other hne]
  · intro start hstart
    have hnew : Names start strtab.written entry := by
      refine ⟨w.strtabWriter.written, name, [], hwritten, ?_⟩
      rw [hname, hoffset, hstart.nextOffset]
    have hold : ∀ other, ∀ e ∈ (w.entries other).written, Names start strtab.written e := by
      intro other e he
      rw [hwritten]
      exact (hstart.names other e he).append _
    refine ⟨?_, ?_⟩
    · rw [strtabWriter_withSymbol, hnext, hwritten, hstart.nextOffset, List.length_append,
        List.length_append, List.length_singleton, UInt32.add_assoc, ← UInt32.ofNat_add]
    · intro other e he
      rw [strtabWriter_withSymbol]
      rcases eq_or_ne other isLocal with rfl | hne
      · rw [entries_withSymbol] at he
        rcases List.mem_append.mp he with he | he
        · exact hold other e he
        · rw [List.mem_singleton.mp he]
          exact hnew
      · rw [hother other hne] at he
        exact hold other e he

/-- A symbol that is defined takes one entry and its name. -/
theorem defineSymbol_defines {addressSize : Nat} {w w' : SymbolTableWriter} {isLocal : Bool}
    {place : SymbolSection} {value size : UInt64} {name : Name} {entry : SymtabEntry}
    (h : w.defineSymbol addressSize isLocal place value size name = .ok (entry, w')) :
    Defines w w' isLocal name entry := by
  obtain ⟨strtab, shndxEntries, hroom, hstring, rfl⟩ := defineSymbol_eq_ok h
  refine ⟨w.withSymbol isLocal strtab shndxEntries entry, ?_, ?_⟩
  · rw [updateLast_withSymbol]
  · intro entry' hname
    rw [updateLast_withSymbol]
    exact follows_withSymbol shndxEntries hroom hstring hname

theorem copyInfo_stName (sym : SymtabEntry) (flags : ValueFlags) (entry : SymtabEntry) :
    (copyInfo sym flags entry).stName = entry.stName := by
  rw [copyInfo]
  split <;> rfl

theorem copySymbolShndx_defines {addressSize : Nat} {w w' : SymbolTableWriter} {sym : SymtabEntry}
    {name : Name} {shndx : UInt32} {value : UInt64} {flags : ValueFlags} {entry : SymtabEntry}
    (h : w.copySymbolShndx addressSize sym name shndx value flags = .ok (entry, w')) :
    Defines w w' (isSymtabLocal flags sym) name entry := by
  obtain ⟨⟨defined, wdefined⟩, hdefine, h⟩ := bind_eq_ok.mp h
  cases h
  exact (defineSymbol_defines hdefine).update _ (copyInfo_stName sym flags defined)

theorem copyAbsoluteSymbol_defines {addressSize : Nat} {w w' : SymbolTableWriter}
    {sym : SymtabEntry} {name : Name} {flags : ValueFlags} {entry : SymtabEntry}
    (h : w.copyAbsoluteSymbol addressSize sym name flags = .ok (entry, w')) :
    Defines w w' (isSymtabLocal flags sym) name entry := by
  obtain ⟨⟨defined, wdefined⟩, hdefine, h⟩ := bind_eq_ok.mp h
  cases h
  exact (defineSymbol_defines hdefine).update _ (copyInfo_stName sym flags defined)

end SymbolTableWriter

end JdxLinker.Symtab
