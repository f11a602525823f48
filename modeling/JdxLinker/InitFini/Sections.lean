import JdxLinker.Lib.Parsers
import JdxLinker.Layout.Alignment
import JdxLinker.Elf.Class

/-!
# The names of constructor and destructor sections

Sections with pointers to constructors are called `.init_array` or `.ctors`, those with pointers to
destructors `.fini_array` or `.dtors`. A decimal suffix gives the priority. The functions of an
array run in ascending order of priority, those of the older sections in descending order.
-/

namespace JdxLinker.InitFini

open JdxLinker.Parser (bytes)

/-- The output sections that the pointers go to. -/
inductive Primary where
  | INIT_ARRAY
  | FINI_ARRAY
  deriving DecidableEq, Repr

def INIT_ARRAY_SECTION_NAME : Text := bytes ".init_array"
def FINI_ARRAY_SECTION_NAME : Text := bytes ".fini_array"
def CTORS_SECTION_NAME : Text := bytes ".ctors"
def DTORS_SECTION_NAME : Text := bytes ".dtors"

/-- `u16::MAX` -/
def maxPriority : Nat := 65535

def isAsciiDigit (c : UInt8) : Bool := 48 ≤ c && c ≤ 57

/-- A digit of a `u32` number: the product and the sum are checked. -/
def parseDigit (value : Nat) (c : UInt8) : Option Nat :=
  if value * 10 + (c.toNat - 48) < 2 ^ 32 then some (value * 10 + (c.toNat - 48)) else none

def parseU32 (digits : Text) : Option Nat := digits.foldlM parseDigit 0

def parsePrioritySuffix (suffix : Text) : Option Nat :=
  if suffix.isEmpty || !suffix.all isAsciiDigit then none
  else
    match parseU32 suffix with
    | none => none
    | some value => some (if value ≤ maxPriority then value else maxPriority)

def initFiniPriority (name : Text) : Option Nat :=
  if name = INIT_ARRAY_SECTION_NAME ∨ name = FINI_ARRAY_SECTION_NAME then some maxPriority
  else
    match name.dropPrefix? (bytes ".init_array.") with
    | some rest => parsePrioritySuffix rest
    | none =>
      match name.dropPrefix? (bytes ".fini_array.") with
      | some rest => parsePrioritySuffix rest
      | none =>
        if name = CTORS_SECTION_NAME ∨ name = DTORS_SECTION_NAME then some maxPriority
        else
          match name.dropPrefix? (bytes ".ctors.") with
          | some rest => (parsePrioritySuffix rest).map (maxPriority - ·)
          | none =>
            match name.dropPrefix? (bytes ".dtors.") with
            | some rest => (parsePrioritySuffix rest).map (maxPriority - ·)
            | none => none

/-- The sorted sections among the default placement rules, in their order. -/
def lookup (name : Text) : Option Primary :=
  if INIT_ARRAY_SECTION_NAME.isPrefixOf name then some .INIT_ARRAY
  else if CTORS_SECTION_NAME.isPrefixOf name then some .INIT_ARRAY
  else if FINI_ARRAY_SECTION_NAME.isPrefixOf name then some .FINI_ARRAY
  else if DTORS_SECTION_NAME.isPrefixOf name then some .FINI_ARRAY
  else none

/-- The contents of the older sections are reversed where they are merged into an array. -/
def shouldReverseContents (name : Text) : Bool :=
  CTORS_SECTION_NAME.isPrefixOf name || DTORS_SECTION_NAME.isPrefixOf name

/-- A decimal number, with its leading zeros. -/
structure Decimal where
  digits : List (Fin 10)
  nonempty : digits ≠ []
  deriving DecidableEq

namespace Decimal

def shiftIn (value : Nat) (d : Fin 10) : Nat := value * 10 + d

def value (n : Decimal) : Nat := n.digits.foldl shiftIn 0

def digit (d : Fin 10) : UInt8 := 48 + UInt8.ofNat d

def bytes (n : Decimal) : Text := n.digits.map digit

end Decimal

/-- The names that compilers give: the array or the older section, with or without a suffix. -/
structure SectionName where
  primary : Primary
  isOlder : Bool
  suffix : Option Decimal
  deriving DecidableEq

namespace SectionName

def base (name : SectionName) : Text :=
  match name.primary, name.isOlder with
  | .INIT_ARRAY, false => INIT_ARRAY_SECTION_NAME
  | .INIT_ARRAY, true => CTORS_SECTION_NAME
  | .FINI_ARRAY, false => FINI_ARRAY_SECTION_NAME
  | .FINI_ARRAY, true => DTORS_SECTION_NAME

def bytes (name : SectionName) : Text :=
  match name.suffix with
  | none => name.base
  | some n => name.base ++ 46 :: n.bytes

/-- When the functions of a section have to run: the unsuffixed ones last. -/
def runsAt (name : SectionName) : WithTop Int :=
  match name.suffix with
  | none => ⊤
  | some n => ((if name.isOlder then 65535 - (n.value : Int) else n.value : Int) : WithTop Int)

end SectionName

/-! ## What the code reads off a name -/

theorem digit_spec (d : Fin 10) :
    isAsciiDigit (Decimal.digit d) = true ∧ (Decimal.digit d).toNat - 48 = d := by
  revert d
  decide

theorem le_foldl_shiftIn (digits : List (Fin 10)) (start : Nat) :
    start ≤ digits.foldl Decimal.shiftIn start := by
  induction digits generalizing start with
  | nil => exact Nat.le_refl start
  | cons d digits ih =>
    have hstep : start ≤ Decimal.shiftIn start d := by
      unfold Decimal.shiftIn
      omega
    exact hstep.trans (ih (Decimal.shiftIn start d))

/-- A number that is too large is too large from some digit on. -/
theorem foldlM_parseDigit (digits : List (Fin 10)) (start : Nat) (hstart : start < 2 ^ 32) :
    (digits.map Decimal.digit).foldlM parseDigit start =
      if digits.foldl Decimal.shiftIn start < 2 ^ 32 then
        some (digits.foldl Decimal.shiftIn start)
      else none := by
  induction digits generalizing start with
  | nil => exact (if_pos hstart).symm
  | cons d digits ih =>
    have hparse : parseDigit start (Decimal.digit d) =
        if Decimal.shiftIn start d < 2 ^ 32 then some (Decimal.shiftIn start d) else none := by
      rw [parseDigit, (digit_spec d).2, Decimal.shiftIn]
    rw [List.map_cons, List.foldlM_cons, List.foldl_cons, hparse]
    by_cases hnext : Decimal.shiftIn start d < 2 ^ 32
    · rw [if_pos hnext]
      exact ih (Decimal.shiftIn start d) hnext
    · have hgrows := le_foldl_shiftIn digits (Decimal.shiftIn start d)
      rw [if_neg hnext, if_neg (by omega)]
      rfl

theorem isAsciiDigit_of_mem_bytes {n : Decimal} {c : UInt8} (hc : c ∈ n.bytes) :
    isAsciiDigit c = true := by
  obtain ⟨d, -, rfl⟩ := List.mem_map.mp hc
  exact (digit_spec d).1

theorem Decimal.bytes_ne_nil (n : Decimal) : n.bytes ≠ [] :=
  fun h => n.nonempty (List.map_eq_nil_iff.mp h)

theorem parsePrioritySuffix_bytes (n : Decimal) :
    parsePrioritySuffix n.bytes =
      if n.value < 2 ^ 32 then some (min n.value maxPriority) else none := by
  have hdigits : n.bytes.all isAsciiDigit = true :=
    List.all_eq_true.mpr fun c hc => isAsciiDigit_of_mem_bytes hc
  have hnonempty : n.bytes.isEmpty = false := List.isEmpty_eq_false_iff.mpr n.bytes_ne_nil
  have hparse : parseU32 n.bytes = if n.value < 2 ^ 32 then some n.value else none :=
    foldlM_parseDigit n.digits 0 (by decide)
  rw [parsePrioritySuffix, hdigits, hnonempty, hparse]
  by_cases hvalue : n.value < 2 ^ 32
  · simp only [if_pos hvalue, Bool.not_true, Bool.or_self, Bool.false_eq_true, if_false]
    rw [Nat.min_def]
  · simp only [if_neg hvalue, Bool.not_true, Bool.or_self, Bool.false_eq_true, if_false]

/-- A name that ends in a digit is none of those that end in a letter. -/
theorem suffixed_ne {name : Text} (hname : ∀ c ∈ name.getLast?, isAsciiDigit c = false)
    (hnonempty : name ≠ []) (before : Text) (n : Decimal) : before ++ n.bytes ≠ name := by
  rintro rfl
  have hlast : (before ++ n.bytes).getLast? = some (n.bytes.getLast n.bytes_ne_nil) := by
    rw [List.getLast?_append_of_ne_nil _ n.bytes_ne_nil, List.getLast?_eq_some_getLast]
  have hdigit := isAsciiDigit_of_mem_bytes (List.getLast_mem n.bytes_ne_nil)
  have hletter := hname _ hlast
  rw [hdigit] at hletter
  exact nomatch hletter

/-- The priority that a name is filed under. -/
theorem initFiniPriority_bytes (name : SectionName) :
    initFiniPriority name.bytes =
      match name.suffix with
      | none => some maxPriority
      | some n =>
        if n.value < 2 ^ 32 then
          some (if name.isOlder then maxPriority - min n.value maxPriority
            else min n.value maxPriority)
        else none := by
  obtain ⟨primary, isOlder, suffix⟩ := name
  cases suffix with
  | none => cases primary <;> cases isOlder <;> decide +kernel
  | some n =>
    have harray := suffixed_ne (by decide +kernel : ∀ c ∈ INIT_ARRAY_SECTION_NAME.getLast?,
      isAsciiDigit c = false) (by decide +kernel)
    have hfini := suffixed_ne (by decide +kernel : ∀ c ∈ FINI_ARRAY_SECTION_NAME.getLast?,
      isAsciiDigit c = false) (by decide +kernel)
    have hctors := suffixed_ne (by decide +kernel : ∀ c ∈ CTORS_SECTION_NAME.getLast?,
      isAsciiDigit c = false) (by decide +kernel)
    have hdtors := suffixed_ne (by decide +kernel : ∀ c ∈ DTORS_SECTION_NAME.getLast?,
      isAsciiDigit c = false) (by decide +kernel)
    have hskip : ∀ before, initFiniPriority (before ++ n.bytes) = _ := fun before =>
      if_neg (not_or.mpr ⟨harray before n, hfini before n⟩)
    cases primary <;> cases isOlder
    · show initFiniPriority (bytes ".init_array." ++ n.bytes) = _
      rw [hskip, List.dropPrefix?_append_of_beq _ (by rfl)]
      exact parsePrioritySuffix_bytes n
    · show initFiniPriority (bytes ".ctors." ++ n.bytes) = _
      have hold : ¬ (bytes ".ctors." ++ n.bytes = CTORS_SECTION_NAME ∨
          bytes ".ctors." ++ n.bytes = DTORS_SECTION_NAME) :=
        not_or.mpr ⟨hctors _ n, hdtors _ n⟩
      have hinit : (bytes ".ctors." ++ n.bytes).dropPrefix? (bytes ".init_array.") = none := rfl
      have hfini : (bytes ".ctors." ++ n.bytes).dropPrefix? (bytes ".fini_array.") = none := rfl
      rw [hskip, hinit, hfini]
      simp only [if_neg hold]
      rw [List.dropPrefix?_append_of_beq _ (by rfl)]
      simp only [parsePrioritySuffix_bytes]
      split <;> rfl
    · show initFiniPriority (bytes ".fini_array." ++ n.bytes) = _
      have hinit : (bytes ".fini_array." ++ n.bytes).dropPrefix? (bytes ".init_array.") = none :=
        rfl
      rw [hskip, hinit]
      simp only []
      rw [List.dropPrefix?_append_of_beq _ (by rfl)]
      exact parsePrioritySuffix_bytes n
    · show initFiniPriority (bytes ".dtors." ++ n.bytes) = _
      have hold : ¬ (bytes ".dtors." ++ n.bytes = CTORS_SECTION_NAME ∨
          bytes ".dtors." ++ n.bytes = DTORS_SECTION_NAME) :=
        not_or.mpr ⟨hctors _ n, hdtors _ n⟩
      have hinit : (bytes ".dtors." ++ n.bytes).dropPrefix? (bytes ".init_array.") = none := rfl
      have hfini : (bytes ".dtors." ++ n.bytes).dropPrefix? (bytes ".fini_array.") = none := rfl
      have hctors : (bytes ".dtors." ++ n.bytes).dropPrefix? (bytes ".ctors.") = none := rfl
      rw [hskip, hinit, hfini]
      simp only [if_neg hold, hctors]
      rw [List.dropPrefix?_append_of_beq _ (by rfl)]
      simp only [parsePrioritySuffix_bytes]
      split <;> rfl

/-- Every name goes to its own array, and the older ones are those that are reversed. -/
theorem lookup_bytes (name : SectionName) : lookup name.bytes = some name.primary := by
  obtain ⟨primary, isOlder, suffix⟩ := name
  cases suffix <;> cases primary <;> cases isOlder <;> rfl

theorem shouldReverseContents_bytes (name : SectionName) :
    shouldReverseContents name.bytes = name.isOlder := by
  obtain ⟨primary, isOlder, suffix⟩ := name
  cases suffix <;> cases primary <;> cases isOlder <;> rfl

end JdxLinker.InitFini

/-!
## Contents of constructor and destructor sections

A section is an array of words, each with the relocations that apply to it. The code reverses the
words of an older section in place and moves its relocations along.
-/

namespace JdxLinker.InitFini

def wordSize : Nat := Class64.addressSize

theorem wordSize_eq : wordSize = 8 := rfl

structure Relocation (R : Type) where
  offset : Nat
  target : R

/-- The contents of a section of words. A relocation applies to a whole word of it. -/
structure Contents (W R : Type) where
  words : List W
  relocations : List (Relocation R)
  atWords : ∀ rel ∈ relocations, ∃ i < words.length, rel.offset = i * wordSize

/-- What the array holds at one place: a word and the relocations applied to it. -/
abbrev Entry (W R : Type) := W × List R

namespace Contents

variable {W R : Type}

def size (contents : Contents W R) : Nat := contents.words.length * wordSize

def entries (contents : Contents W R) : List (Entry W R) :=
  contents.words.mapIdx fun i word =>
    (word, (contents.relocations.filter (·.offset = i * wordSize)).map Relocation.target)

def reversedOffset (sectionSize offset : Nat) : Nat := sectionSize - (offset + wordSize)

theorem reversedOffset_word {n i : Nat} (h : i < n) :
    reversedOffset (n * wordSize) (i * wordSize) = (n - 1 - i) * wordSize := by
  rw [reversedOffset, wordSize_eq]
  omega

def writeSectionReversed (contents : Contents W R) : Contents W R where
  words := contents.words.reverse
  relocations := contents.relocations.map fun rel =>
    { rel with offset := reversedOffset contents.size rel.offset }
  atWords := by
    intro rel hrel
    obtain ⟨original, horiginal, rfl⟩ := List.mem_map.mp hrel
    obtain ⟨i, hi, hoffset⟩ := contents.atWords original horiginal
    refine ⟨contents.words.length - 1 - i, ?_, ?_⟩
    · rw [List.length_reverse]
      omega
    · show reversedOffset contents.size original.offset = _
      rw [hoffset]
      exact reversedOffset_word hi

theorem entries_length (contents : Contents W R) :
    contents.entries.length = contents.words.length := List.length_mapIdx

/-- A relocation is found at the mirrored word. -/
theorem reversedOffset_eq_iff (contents : Contents W R) {rel : Relocation R}
    (hrel : rel ∈ contents.relocations) {i : Nat} (hi : i < contents.words.length) :
    reversedOffset contents.size rel.offset = i * wordSize ↔
      rel.offset = (contents.words.length - 1 - i) * wordSize := by
  obtain ⟨j, hj, hoffset⟩ := contents.atWords rel hrel
  have hmirror : reversedOffset contents.size rel.offset =
      (contents.words.length - 1 - j) * wordSize := by
    rw [hoffset]
    exact reversedOffset_word hj
  rw [hmirror, hoffset, wordSize_eq]
  omega

/-- Reversing a section reverses its words together with what is relocated into them. -/
theorem entries_writeSectionReversed (contents : Contents W R) :
    contents.writeSectionReversed.entries = contents.entries.reverse := by
  apply List.ext_getElem
  · rw [entries_length, List.length_reverse, entries_length]
    exact List.length_reverse
  · intro i hi _
    have hword : i < contents.words.length := by
      rwa [entries_length, writeSectionReversed, List.length_reverse] at hi
    have hrelocations : ((contents.relocations.map fun rel =>
          ({ rel with offset := reversedOffset contents.size rel.offset } : Relocation R)).filter
          (·.offset = i * wordSize)).map Relocation.target =
        (contents.relocations.filter
          (·.offset = (contents.words.length - 1 - i) * wordSize)).map Relocation.target := by
      rw [List.filter_map, List.map_map]
      have hfilter : contents.relocations.filter
          ((fun rel => decide (rel.offset = i * wordSize)) ∘ fun rel =>
            ({ rel with offset := reversedOffset contents.size rel.offset } : Relocation R)) =
          contents.relocations.filter
            (·.offset = (contents.words.length - 1 - i) * wordSize) := by
        apply List.filter_congr
        intro rel hrel
        exact decide_eq_decide.mpr (contents.reversedOffset_eq_iff hrel hword)
      rw [hfilter]
      rfl
    rw [List.getElem_reverse]
    simp only [entries, List.getElem_mapIdx, List.length_mapIdx]
    rw [← hrelocations]
    simp only [writeSectionReversed, List.getElem_reverse]

end Contents

end JdxLinker.InitFini
