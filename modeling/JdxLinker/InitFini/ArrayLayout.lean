import Mathlib.Data.List.ReduceOption
import JdxLinker.InitFini.Filing
import JdxLinker.Lib.StableSort

/-!
# Layout of constructor and destructor arrays

An output section is laid out part by part, from the most aligned one on, and the sections of a part
take their sizes rounded up to its alignment. The words between sections stay zero. The array of a
primary section goes from where that starts to where the last of its secondary sections ends.
-/

namespace JdxLinker.InitFini

open JdxLinker.Alignment (USIZE MIN MAX_ALIGNMENT_EXPONENT)
open StableSort (sortBy)

variable {W R : Type}

/-- A section for one of the arrays, with its contents. -/
structure Section (W R : Type) where
  header : SectionHeader
  contents : Contents W R
  words_eq : contents.words.length = header.words

/-- The contents that `write_object_section` leaves in the output. -/
def Section.written (sec : Section W R) : Contents W R :=
  if shouldReverseContents sec.header.name.bytes then sec.contents.writeSectionReversed
  else sec.contents

structure Part (W R : Type) where
  alignment : Alignment
  sections : List (Section W R)

def Part.size (part : Part W R) : Nat :=
  (part.sections.map fun sec => part.alignment.alignUp sec.header.size).sum

/-- The alignments of the parts of an output section, in the order of part ids. -/
def partAlignments : List Alignment :=
  (List.range (MAX_ALIGNMENT_EXPONENT + 1)).reverse.map Alignment.mk

/-- The input sections with the parts they have been filed under. -/
abbrev FiledSections (W R : Type) := List (Section W R × Option PartId)

namespace FiledSections

variable (filed : FiledSections W R)

def sectionsAt (id : PartId) : List (Section W R) :=
  (filed.filter fun entry => entry.2 = some id).map Prod.fst

def allParts (id : OutputSectionId) : List (Part W R) :=
  partAlignments.map fun alignment => ⟨alignment, filed.sectionsAt ⟨id, alignment⟩⟩

/-- A built-in section has all its parts, another one those that something was filed under. -/
def parts : OutputSectionId → List (Part W R)
  | .primary primary => filed.allParts (.primary primary)
  | .secondary index =>
    match (filed.allParts (.secondary index)).filter fun part => !part.sections.isEmpty with
    | [] => [⟨⟨MAX_ALIGNMENT_EXPONENT⟩, []⟩]
    | part :: rest => part :: rest

end FiledSections

/-- The alignment of the first part that is not empty, or that of the section. -/
def maxAlignment (parts : List (Part W R)) (minAlignment : Alignment) : Alignment :=
  ((parts.find? fun part => part.size ≠ 0).elim MIN Part.alignment).max minAlignment

def OutputSections.minAlignment (sections : OutputSections) : OutputSectionId → Alignment
  | .primary _ => USIZE
  | .secondary index => sections[index]?.elim MIN Secondary.minAlignment

/-- The primary section, then its secondary sections by priority. -/
def OutputSections.order (sections : OutputSections) (primary : Primary) : List OutputSectionId :=
  .primary primary ::
    (sortBy (fun sec => sec.1.priority)
      (sections.zipIdx.filter fun sec => sec.1.primary = primary)).map fun sec => .secondary sec.2

/-- How far an array has been laid out, and its words. A word that no section has is zero. -/
structure Cursor (α : Type) where
  memOffset : Nat
  image : List (Option α)

namespace Cursor

def padTo (cursor : Cursor (Entry W R)) (memOffset : Nat) : Cursor (Entry W R) :=
  ⟨memOffset, cursor.image ++ List.replicate ((memOffset - cursor.memOffset) / wordSize) none⟩

def alignUp (alignment : Alignment) (cursor : Cursor (Entry W R)) : Cursor (Entry W R) :=
  cursor.padTo (alignment.alignUp cursor.memOffset)

def writeWords (cursor : Cursor (Entry W R)) (entries : List (Entry W R)) : Cursor (Entry W R) :=
  ⟨cursor.memOffset + entries.length * wordSize, cursor.image ++ entries.map some⟩

/-- A section takes its size rounded up to the alignment of its part. -/
def writeSection (alignment : Alignment) (cursor : Cursor (Entry W R)) (sec : Section W R) :
    Cursor (Entry W R) :=
  (cursor.writeWords sec.written.entries).padTo
    (cursor.memOffset + alignment.alignUp sec.header.size)

def layoutPart (cursor : Cursor (Entry W R)) (alignment : Alignment) (part : Part W R) :
    Cursor (Entry W R) :=
  part.sections.foldl (writeSection part.alignment) (cursor.alignUp alignment)

def layoutSection (cursor : Cursor (Entry W R)) (parts : List (Part W R))
    (minAlignment : Alignment) : Cursor (Entry W R) :=
  match parts with
  | [] => cursor
  | first :: rest =>
    rest.foldl
      (fun cursor part =>
        cursor.layoutPart (part.alignment.min (maxAlignment parts minAlignment)) part)
      (cursor.layoutPart (maxAlignment parts minAlignment) first)

end Cursor

/-- The sections of a list of objects, filed one object after the other. -/
def fileObjects (objects : List (List (Section W R))) : FiledSections W R × OutputSections :=
  let (parts, sections) :=
    OutputSections.assignSectionIds [] (objects.map fun object => object.map Section.header)
  (objects.flatten.zip parts.flatten, sections)

/-- The first address of an array, where its primary section starts. -/
def arrayStart (address : Nat) (objects : List (List (Section W R))) (primary : Primary) : Nat :=
  (maxAlignment ((fileObjects objects).1.parts (.primary primary)) USIZE).alignUp address

/-- The words of an array, for the address at which the layout comes to its primary section. -/
def arrayImage (address : Nat) (objects : List (List (Section W R))) (primary : Primary) :
    List (Option (Entry W R)) :=
  let (filed, sections) := fileObjects objects
  ((sections.order primary).foldl
    (fun (cursor : Cursor (Entry W R)) id => cursor.layoutSection (filed.parts id) (sections.minAlignment id))
    ⟨arrayStart address objects primary, []⟩).image

/-! ## What is written -/

def wordsOf (sections : List (Section W R)) : Nat := (sections.map fun sec => sec.header.words).sum

def entriesOf (sections : List (Section W R)) : List (Entry W R) :=
  sections.flatMap fun sec => sec.written.entries

def partsSections (parts : List (Part W R)) : List (Section W R) := parts.flatMap Part.sections

theorem Section.written_entries_length (sec : Section W R) :
    sec.written.entries.length = sec.header.words := by
  rw [Contents.entries_length, ← sec.words_eq]
  unfold Section.written
  split
  · exact List.length_reverse
  · rfl

theorem entriesOf_length (sections : List (Section W R)) :
    (entriesOf sections).length = wordsOf sections := by
  rw [entriesOf, List.length_flatMap, wordsOf]
  congr 1
  exact List.map_congr_left fun sec _ => sec.written_entries_length

theorem wordsOf_append (sections rest : List (Section W R)) :
    wordsOf (sections ++ rest) = wordsOf sections + wordsOf rest := by
  rw [wordsOf, List.map_append, List.sum_append, wordsOf, wordsOf]

/-- The image starts at this address and holds these entries. -/
structure Cursor.Holds (start : Nat) (entries : List (Entry W R)) (cursor : Cursor (Entry W R)) :
    Prop where
  memOffset_eq : cursor.memOffset = start + cursor.image.length * wordSize
  entries_eq : cursor.image.reduceOption = entries

namespace Cursor

variable {cursor : Cursor (Entry W R)} {start : Nat} {entries : List (Entry W R)}

theorem Holds.padTo (h : cursor.Holds start entries) (hstart : wordSize ∣ start) {memOffset : Nat}
    (hle : cursor.memOffset ≤ memOffset) (hdvd : wordSize ∣ memOffset) :
    (cursor.padTo memOffset).Holds start entries where
  memOffset_eq := by
    have haddress := h.memOffset_eq
    have hlength : (cursor.padTo memOffset).image.length =
        cursor.image.length + (memOffset - cursor.memOffset) / wordSize := by
      rw [Cursor.padTo, List.length_append, List.length_replicate]
    show memOffset = _
    rw [hlength]
    rw [wordSize_eq] at *
    omega
  entries_eq := by
    rw [Cursor.padTo, List.reduceOption_append, List.reduceOption_replicate_none, List.append_nil]
    exact h.entries_eq

theorem Holds.writeWords (h : cursor.Holds start entries) (more : List (Entry W R)) :
    (cursor.writeWords more).Holds start (entries ++ more) where
  memOffset_eq := by
    have haddress := h.memOffset_eq
    rw [Cursor.writeWords, List.length_append, List.length_map, Nat.add_mul, ← Nat.add_assoc,
      haddress]
  entries_eq := by
    have hmore : (more.map some).reduceOption = more := by
      rw [List.reduceOption, List.filterMap_map]
      exact List.filterMap_some
    rw [Cursor.writeWords, List.reduceOption_append, h.entries_eq, hmore]

theorem Holds.memOffset_dvd (h : cursor.Holds start entries) (hstart : wordSize ∣ start) :
    wordSize ∣ cursor.memOffset := by
  rw [h.memOffset_eq]
  exact Nat.dvd_add hstart (Nat.dvd_mul_left _ _)

theorem wordSize_dvd_value {alignment : Alignment} (h : USIZE.exponent ≤ alignment.exponent) :
    wordSize ∣ alignment.value := Alignment.value_dvd_value h

theorem Holds.alignUp (h : cursor.Holds start entries) (hstart : wordSize ∣ start)
    (alignment : Alignment) : (cursor.alignUp alignment).Holds start entries := by
  apply h.padTo hstart (alignment.le_alignUp _)
  have hdvd := h.memOffset_dvd hstart
  rcases Nat.le_total USIZE.exponent alignment.exponent with hle | hle
  · exact (wordSize_dvd_value hle).trans (alignment.dvd_alignUp _)
  · -- A smaller alignment never moves a cursor that stands at a word.
    have hsmall : alignment.value ∣ wordSize := Alignment.value_dvd_value hle
    rw [Alignment.alignUp_eq_iff.mpr (hsmall.trans hdvd)]
    exact hdvd

theorem Holds.writeSection (h : cursor.Holds start entries) (hstart : wordSize ∣ start)
    {alignment : Alignment} (haligned : USIZE.exponent ≤ alignment.exponent)
    (sec : Section W R) :
    (cursor.writeSection alignment sec).Holds start (entries ++ sec.written.entries) := by
  have hlength : sec.written.entries.length * wordSize = sec.header.size := by
    rw [sec.written_entries_length, SectionHeader.size]
  apply (h.writeWords sec.written.entries).padTo hstart
  · show cursor.memOffset + sec.written.entries.length * wordSize ≤ _
    rw [hlength]
    exact Nat.add_le_add_left (alignment.le_alignUp _) _
  · exact Nat.dvd_add (h.memOffset_dvd hstart)
      ((wordSize_dvd_value haligned).trans (alignment.dvd_alignUp _))

theorem Holds.layoutPart (h : cursor.Holds start entries) (hstart : wordSize ∣ start)
    (alignment : Alignment) {part : Part W R}
    (hpart : part.sections ≠ [] → USIZE.exponent ≤ part.alignment.exponent) :
    (cursor.layoutPart alignment part).Holds start (entries ++ entriesOf part.sections) := by
  have hfold : ∀ (sections : List (Section W R)) (cursor : Cursor (Entry W R))
      (entries : List (Entry W R)), cursor.Holds start entries →
      (sections ≠ [] → USIZE.exponent ≤ part.alignment.exponent) →
      (sections.foldl (Cursor.writeSection part.alignment) cursor).Holds start
        (entries ++ entriesOf sections) := by
    intro sections
    induction sections with
    | nil =>
      intro cursor entries h _
      rw [entriesOf, List.flatMap_nil, List.append_nil]
      exact h
    | cons sec rest ih =>
      intro cursor entries h hpart
      have haligned' := hpart (List.cons_ne_nil sec rest)
      have hrest := ih _ _ (h.writeSection hstart haligned' sec) fun _ => haligned'
      rw [List.append_assoc] at hrest
      exact hrest
  exact hfold part.sections _ entries (h.alignUp hstart alignment) hpart

/-- What is in a part is aligned for words, and the parts come from the most aligned one on. -/
structure WellFormed (parts : List (Part W R)) : Prop where
  nonempty : parts ≠ []
  aligned : ∀ part ∈ parts, part.sections ≠ [] → USIZE.exponent ≤ part.alignment.exponent
  descending : parts.Pairwise fun part next => next.alignment.exponent ≤ part.alignment.exponent

theorem Holds.layoutParts (h : cursor.Holds start entries) (hstart : wordSize ∣ start)
    (bound : Alignment) {parts : List (Part W R)}
    (haligned : ∀ part ∈ parts, part.sections ≠ [] → USIZE.exponent ≤ part.alignment.exponent) :
    (parts.foldl (fun cursor part => cursor.layoutPart (part.alignment.min bound) part)
      cursor).Holds start (entries ++ entriesOf (partsSections parts)) := by
  induction parts generalizing cursor entries with
  | nil =>
    rw [partsSections, List.flatMap_nil, entriesOf, List.flatMap_nil, List.append_nil]
    exact h
  | cons part rest ih =>
    have hpart := h.layoutPart hstart (part.alignment.min bound)
      (haligned part List.mem_cons_self)
    have hrest := ih hpart fun part hpart => haligned part (List.mem_cons_of_mem _ hpart)
    rw [List.append_assoc, entriesOf, entriesOf, ← List.flatMap_append] at hrest
    exact hrest

theorem Holds.layoutSection (h : cursor.Holds start entries) (hstart : wordSize ∣ start)
    {parts : List (Part W R)} (hparts : WellFormed parts) (minAlignment : Alignment) :
    (cursor.layoutSection parts minAlignment).Holds start
      (entries ++ entriesOf (partsSections parts)) := by
  cases parts with
  | nil => exact absurd rfl hparts.nonempty
  | cons first rest =>
    have hfirst := h.layoutPart hstart (maxAlignment (first :: rest) minAlignment)
      (hparts.aligned first List.mem_cons_self)
    have hrest := hfirst.layoutParts hstart (maxAlignment (first :: rest) minAlignment)
      fun part hpart => hparts.aligned part (List.mem_cons_of_mem _ hpart)
    rw [List.append_assoc, entriesOf, entriesOf, ← List.flatMap_append] at hrest
    exact hrest

/-! ## Where nothing is padded -/

theorem layoutPart_memOffset (cursor : Cursor (Entry W R)) (alignment : Alignment)
    (part : Part W R) :
    (cursor.layoutPart alignment part).memOffset =
      alignment.alignUp cursor.memOffset + part.size := by
  have hfold : ∀ (sections : List (Section W R)) (cursor : Cursor (Entry W R)),
      (sections.foldl (Cursor.writeSection part.alignment) cursor).memOffset = cursor.memOffset +
        (sections.map fun sec => part.alignment.alignUp sec.header.size).sum := by
    intro sections
    induction sections with
    | nil => exact fun _ => rfl
    | cons sec rest ih =>
      intro cursor
      rw [List.foldl_cons, ih, List.map_cons, List.sum_cons, ← Nat.add_assoc]
      rfl
  exact hfold part.sections (cursor.alignUp alignment)

end Cursor

/-- The sections of a part fill it. -/
def Part.Full (part : Part W R) : Prop :=
  ∀ sec ∈ part.sections, part.alignment.value ∣ sec.header.size

theorem Part.le_size (part : Part W R) : wordsOf part.sections * wordSize ≤ part.size := by
  unfold Part.size
  induction part.sections with
  | nil => exact Nat.le_refl 0
  | cons sec rest ih =>
    have hsec := part.alignment.le_alignUp sec.header.size
    rw [wordsOf, List.map_cons, List.sum_cons, Nat.add_mul, List.map_cons, List.sum_cons]
    exact Nat.add_le_add hsec ih

theorem Part.size_eq_iff (part : Part W R) :
    part.size = wordsOf part.sections * wordSize ↔ part.Full := by
  unfold Part.Full
  obtain ⟨alignment, sections⟩ := part
  show (sections.map fun sec => alignment.alignUp sec.header.size).sum =
    wordsOf sections * wordSize ↔ ∀ sec ∈ sections, alignment.value ∣ sec.header.size
  induction sections with
  | nil => exact iff_of_true rfl fun _ h => nomatch h
  | cons sec rest ih =>
    have hsec := alignment.le_alignUp sec.header.size
    have hrest : wordsOf rest * wordSize ≤
        (rest.map fun sec => alignment.alignUp sec.header.size).sum :=
      Part.le_size ⟨alignment, rest⟩
    have hwords : wordsOf (sec :: rest) * wordSize = sec.header.size + wordsOf rest * wordSize := by
      rw [wordsOf, List.map_cons, List.sum_cons, Nat.add_mul]
      rfl
    rw [List.forall_mem_cons, ← ih, ← Alignment.alignUp_eq_iff, hwords, List.map_cons,
      List.sum_cons]
    omega

theorem Part.dvd_size (part : Part W R) : part.alignment.value ∣ part.size := by
  have hsum : ∀ sections : List (Section W R), part.alignment.value ∣
      (sections.map fun sec => part.alignment.alignUp sec.header.size).sum := by
    intro sections
    apply List.dvd_sum
    intro size hsize
    obtain ⟨sec, -, rfl⟩ := List.mem_map.mp hsize
    exact part.alignment.dvd_alignUp _
  exact hsum part.sections

namespace Cursor

theorem wordsOf_partsSections_cons (part : Part W R) (rest : List (Part W R)) :
    wordsOf (partsSections (part :: rest)) * wordSize =
      wordsOf part.sections * wordSize + wordsOf (partsSections rest) * wordSize := by
  rw [partsSections, List.flatMap_cons, wordsOf_append, Nat.add_mul]
  rfl

theorem layoutSection_cons (cursor : Cursor (Entry W R)) (first : Part W R)
    (rest : List (Part W R)) (minAlignment : Alignment) :
    cursor.layoutSection (first :: rest) minAlignment =
      rest.foldl
        (fun cursor part =>
          cursor.layoutPart
            (part.alignment.min (maxAlignment (first :: rest) minAlignment)) part)
        (cursor.layoutPart (maxAlignment (first :: rest) minAlignment) first) := rfl

theorem le_layoutParts (cursor : Cursor (Entry W R)) (bound : Alignment) (parts : List (Part W R)) :
    cursor.memOffset + wordsOf (partsSections parts) * wordSize ≤
      (parts.foldl (fun cursor part => cursor.layoutPart (part.alignment.min bound) part)
        cursor).memOffset := by
  induction parts generalizing cursor with
  | nil => exact Nat.le_refl _
  | cons part rest ih =>
    have hrest := ih (cursor.layoutPart (part.alignment.min bound) part)
    have halign := (part.alignment.min bound).le_alignUp cursor.memOffset
    have hsize := part.le_size
    rw [layoutPart_memOffset] at hrest
    rw [wordsOf_partsSections_cons, List.foldl_cons]
    omega

/-- Parts that get no padding are full. -/
theorem full_of_layoutParts (cursor : Cursor (Entry W R)) (bound : Alignment)
    {parts : List (Part W R)}
    (h : (parts.foldl (fun cursor part => cursor.layoutPart (part.alignment.min bound) part)
        cursor).memOffset = cursor.memOffset + wordsOf (partsSections parts) * wordSize) :
    ∀ part ∈ parts, part.Full := by
  induction parts generalizing cursor with
  | nil => exact fun _ h => nomatch h
  | cons part rest ih =>
    have hrest := le_layoutParts (cursor.layoutPart (part.alignment.min bound) part) bound rest
    have hpart := layoutPart_memOffset cursor (part.alignment.min bound) part
    have halign := (part.alignment.min bound).le_alignUp cursor.memOffset
    have hsize := part.le_size
    rw [wordsOf_partsSections_cons, List.foldl_cons] at h
    rw [List.forall_mem_cons]
    constructor
    · apply part.size_eq_iff.mp
      omega
    · apply ih (cursor.layoutPart (part.alignment.min bound) part)
      omega

/-- A part that is no more aligned than the full ones before it starts where they end. -/
theorem layoutParts_of_full {cursor : Cursor (Entry W R)} {bound : Alignment}
    {parts : List (Part W R)} (hfull : ∀ part ∈ parts, part.Full)
    (hdescending : parts.Pairwise fun part next =>
      next.alignment.exponent ≤ part.alignment.exponent)
    (hstart : ∀ part ∈ parts, (part.alignment.min bound).value ∣ cursor.memOffset) :
    (parts.foldl (fun cursor part => cursor.layoutPart (part.alignment.min bound) part)
      cursor).memOffset = cursor.memOffset + wordsOf (partsSections parts) * wordSize := by
  induction parts generalizing cursor with
  | nil => rfl
  | cons part rest ih =>
    obtain ⟨hnext, hrest⟩ := List.pairwise_cons.mp hdescending
    obtain ⟨hpart, hfulls⟩ := List.forall_mem_cons.mp hfull
    have halign := Alignment.alignUp_eq_iff.mpr (hstart part List.mem_cons_self)
    have hend := layoutPart_memOffset cursor (part.alignment.min bound) part
    have hstart' : ∀ next ∈ rest, (next.alignment.min bound).value ∣
        (cursor.layoutPart (part.alignment.min bound) part).memOffset := by
      intro next hmem
      rw [hend, halign]
      apply Nat.dvd_add (hstart next (List.mem_cons_of_mem _ hmem))
      have hsmaller : (next.alignment.min bound).exponent ≤ part.alignment.exponent :=
        (Nat.min_le_left _ _).trans (hnext next hmem)
      exact (Alignment.value_dvd_value hsmaller).trans part.dvd_size
    have hsize := part.size_eq_iff.mpr hpart
    rw [List.foldl_cons, ih hfulls hrest hstart', hend, halign, wordsOf_partsSections_cons, hsize,
      Nat.add_assoc]

/-- An output section gets no padding exactly where it starts at a multiple of its alignment and its
parts are full. -/
theorem layoutSection_memOffset_eq_iff (cursor : Cursor (Entry W R)) {parts : List (Part W R)}
    (hparts : WellFormed parts) (minAlignment : Alignment) :
    (cursor.layoutSection parts minAlignment).memOffset =
        cursor.memOffset + wordsOf (partsSections parts) * wordSize ↔
      (maxAlignment parts minAlignment).value ∣ cursor.memOffset ∧
        ∀ part ∈ parts, part.Full := by
  cases parts with
  | nil => exact absurd rfl hparts.nonempty
  | cons first rest =>
    obtain ⟨hnext, hrest⟩ := List.pairwise_cons.mp hparts.descending
    rw [layoutSection_cons]
    generalize maxAlignment (first :: rest) minAlignment = bound
    have hend := layoutPart_memOffset cursor bound first
    have hle := le_layoutParts (cursor.layoutPart bound first) bound rest
    have halign := bound.le_alignUp cursor.memOffset
    have hsize := first.le_size
    rw [wordsOf_partsSections_cons, List.forall_mem_cons]
    constructor
    · intro h
      refine ⟨Alignment.alignUp_eq_iff.mp ?_, first.size_eq_iff.mp ?_,
        full_of_layoutParts (cursor.layoutPart bound first) bound ?_⟩ <;> omega
    · rintro ⟨hdvd, hfirst, hfull⟩
      have hdvd' := Alignment.alignUp_eq_iff.mpr hdvd
      rw [layoutParts_of_full hfull hrest, hend, hdvd', first.size_eq_iff.mpr hfirst,
        Nat.add_assoc]
      intro next hmem
      rw [hend, hdvd']
      apply Nat.dvd_add
      · exact (Alignment.value_dvd_value (Nat.min_le_right _ _)).trans hdvd
      · have hsmaller : (next.alignment.min bound).exponent ≤ first.alignment.exponent :=
          (Nat.min_le_left _ _).trans (hnext next hmem)
        exact (Alignment.value_dvd_value hsmaller).trans first.dvd_size

theorem le_layoutSection (cursor : Cursor (Entry W R)) (parts : List (Part W R))
    (minAlignment : Alignment) :
    cursor.memOffset + wordsOf (partsSections parts) * wordSize ≤
      (cursor.layoutSection parts minAlignment).memOffset := by
  cases parts with
  | nil => exact Nat.le_refl _
  | cons first rest =>
    have hend := layoutPart_memOffset cursor (maxAlignment (first :: rest) minAlignment) first
    have hle := le_layoutParts
      (cursor.layoutPart (maxAlignment (first :: rest) minAlignment) first)
      (maxAlignment (first :: rest) minAlignment) rest
    have halign := (maxAlignment (first :: rest) minAlignment).le_alignUp cursor.memOffset
    have hsize := first.le_size
    rw [wordsOf_partsSections_cons, layoutSection_cons]
    omega

/-- Output sections, laid out one after the other. -/
def layoutAll (cursor : Cursor (Entry W R)) (outputs : List (List (Part W R) × Alignment)) :
    Cursor (Entry W R) :=
  outputs.foldl (fun cursor output => cursor.layoutSection output.1 output.2) cursor

def outputsSections (outputs : List (List (Part W R) × Alignment)) : List (Section W R) :=
  outputs.flatMap fun output => partsSections output.1

theorem le_layoutAll (cursor : Cursor (Entry W R))
    (outputs : List (List (Part W R) × Alignment)) :
    cursor.memOffset + wordsOf (outputsSections outputs) * wordSize ≤
      (cursor.layoutAll outputs).memOffset := by
  induction outputs generalizing cursor with
  | nil => exact Nat.le_refl _
  | cons output rest ih =>
    have hrest := ih (cursor.layoutSection output.1 output.2)
    have houtput := le_layoutSection cursor output.1 output.2
    rw [outputsSections, List.flatMap_cons, wordsOf_append, Nat.add_mul]
    exact (Nat.add_assoc _ _ _).symm.le.trans
      ((Nat.add_le_add_right houtput _).trans hrest)

theorem Holds.layoutAll {cursor : Cursor (Entry W R)} {start : Nat} {entries : List (Entry W R)}
    (h : cursor.Holds start entries) (hstart : wordSize ∣ start)
    {outputs : List (List (Part W R) × Alignment)}
    (houtputs : ∀ output ∈ outputs, WellFormed output.1) :
    (cursor.layoutAll outputs).Holds start (entries ++ entriesOf (outputsSections outputs)) := by
  induction outputs generalizing cursor entries with
  | nil =>
    rw [outputsSections, List.flatMap_nil, entriesOf, List.flatMap_nil, List.append_nil]
    exact h
  | cons output rest ih =>
    obtain ⟨houtput, hrest⟩ := List.forall_mem_cons.mp houtputs
    have hall := ih (h.layoutSection hstart houtput output.2) hrest
    rw [List.append_assoc, entriesOf, entriesOf, ← List.flatMap_append] at hall
    exact hall

/-- Nothing is padded exactly where every output section starts at a multiple of its alignment, all
before it being full. -/
theorem layoutAll_memOffset_eq_iff (cursor : Cursor (Entry W R))
    {outputs : List (List (Part W R) × Alignment)}
    (houtputs : ∀ output ∈ outputs, WellFormed output.1) :
    (cursor.layoutAll outputs).memOffset =
        cursor.memOffset + wordsOf (outputsSections outputs) * wordSize ↔
      (∀ output ∈ outputs, ∀ part ∈ output.1, part.Full) ∧
        ∀ before output after, outputs = before ++ output :: after →
          (maxAlignment output.1 output.2).value ∣
            cursor.memOffset + wordsOf (outputsSections before) * wordSize := by
  induction outputs generalizing cursor with
  | nil =>
    constructor
    · intro _
      refine ⟨fun output h => absurd h List.not_mem_nil, ?_⟩
      intro before output after h
      exact absurd h (by simp)
    · exact fun _ => rfl
  | cons first rest ih =>
    obtain ⟨hfirst, hrest⟩ := List.forall_mem_cons.mp houtputs
    have hsection := layoutSection_memOffset_eq_iff cursor hfirst first.2
    have hle := le_layoutSection cursor first.1 first.2
    have hle' := le_layoutAll (cursor.layoutSection first.1 first.2) rest
    have hall := ih (cursor.layoutSection first.1 first.2) hrest
    have hwords : ∀ more : List (List (Part W R) × Alignment),
        wordsOf (outputsSections (first :: more)) * wordSize =
          wordsOf (partsSections first.1) * wordSize + wordsOf (outputsSections more) * wordSize := by
      intro more
      rw [outputsSections, List.flatMap_cons, wordsOf_append, Nat.add_mul]
      rfl
    have hsplit : (cursor.layoutAll (first :: rest)).memOffset =
        cursor.memOffset + wordsOf (outputsSections (first :: rest)) * wordSize ↔
      (cursor.layoutSection first.1 first.2).memOffset =
          cursor.memOffset + wordsOf (partsSections first.1) * wordSize ∧
        ((cursor.layoutSection first.1 first.2).layoutAll rest).memOffset =
          (cursor.layoutSection first.1 first.2).memOffset +
            wordsOf (outputsSections rest) * wordSize := by
      rw [hwords]
      show ((cursor.layoutSection first.1 first.2).layoutAll rest).memOffset = _ ↔ _
      omega
    rw [hsplit, hall, List.forall_mem_cons]
    constructor
    · rintro ⟨hhere, hfull, hlater⟩
      obtain ⟨hdvd, hfull'⟩ := hsection.mp hhere
      refine ⟨⟨hfull', hfull⟩, ?_⟩
      intro before output after heq
      cases before with
      | nil =>
        obtain ⟨rfl, rfl⟩ := List.cons_eq_cons.mp heq
        exact hdvd
      | cons other before =>
        obtain ⟨rfl, hrest'⟩ := List.cons_eq_cons.mp heq
        have hnext := hlater before output after hrest'
        rw [hhere] at hnext
        rw [hwords, ← Nat.add_assoc]
        exact hnext
    · rintro ⟨⟨hfull', hfull⟩, hplaces⟩
      have hhere := hsection.mpr ⟨hplaces [] first rest rfl, hfull'⟩
      refine ⟨hhere, hfull, ?_⟩
      intro before output after heq
      have hnext := hplaces (first :: before) output after (congrArg (first :: ·) heq)
      rw [hwords, ← Nat.add_assoc] at hnext
      rw [hhere]
      exact hnext

theorem map_some_reduceOption {α : Type*} {l : List (Option α)} (h : ∀ x ∈ l, x.isSome = true) :
    l.reduceOption.map some = l := by
  induction l with
  | nil => rfl
  | cons x l ih =>
    obtain ⟨hx, hl⟩ := List.forall_mem_cons.mp h
    obtain ⟨a, rfl⟩ := Option.isSome_iff_exists.mp hx
    rw [List.reduceOption_cons_of_some, List.map_cons, ih hl]

theorem image_eq_iff {cursor : Cursor (Entry W R)} {start : Nat} {entries : List (Entry W R)}
    (h : cursor.Holds start entries) (expected : List (Entry W R)) :
    cursor.image = expected.map some ↔
      entries = expected ∧ cursor.memOffset = start + entries.length * wordSize := by
  have hlength : cursor.memOffset = start + entries.length * wordSize ↔
      cursor.image.length = entries.length := by
    rw [h.memOffset_eq, wordSize_eq]
    omega
  rw [hlength]
  constructor
  · intro himage
    have hentries := h.entries_eq
    rw [himage, List.reduceOption, List.filterMap_map] at hentries
    have hsame : expected = entries := by
      rw [← hentries]
      exact List.filterMap_some.symm
    exact ⟨hsame.symm, by rw [himage, List.length_map, hsame]⟩
  · rintro ⟨rfl, hlength⟩
    have hsome := List.reduceOption_length_eq_iff.mp (by rw [h.entries_eq, hlength])
    rw [← h.entries_eq, map_some_reduceOption hsome]

end Cursor

end JdxLinker.InitFini
