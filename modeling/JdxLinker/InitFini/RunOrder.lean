import Mathlib.Data.Prod.Lex
import Mathlib.Order.WithBot
import JdxLinker.InitFini.ArrayLayout

/-!
# The order of constructors

The output sections of an array take its input sections priority by priority, and in each the parts
take them by alignment, so an array is its input sections sorted by both. It runs them in the order
that their names ask for, without a gap, exactly where that sort agrees with the names and nothing
is padded.
-/

namespace JdxLinker.InitFini

open JdxLinker.Alignment (USIZE MIN MAX_ALIGNMENT_EXPONENT)
open OutputSections StableSort

variable {W R : Type}

/-! ## What is filed where -/

theorem key_eq_some_iff {header : SectionHeader} {primary : Primary} {priority : Nat} :
    header.key = some (primary, priority) ↔
      header.name.primary = primary ∧ header.priority = (priority : WithBot Nat) := by
  rw [SectionHeader.key, Option.map_eq_some_iff]
  constructor
  · rintro ⟨found, hfound, heq⟩
    obtain ⟨rfl, rfl⟩ := Prod.mk.inj heq
    exact ⟨rfl, hfound⟩
  · rintro ⟨rfl, hpriority⟩
    exact ⟨priority, hpriority, rfl⟩

theorem key_eq_none_iff {header : SectionHeader} :
    header.key = none ↔ header.priority = ⊥ := Option.map_eq_none_iff

theorem partOf_primary_iff {keys : List (Primary × Nat)} {header : SectionHeader}
    {primary : Primary} {alignment : Alignment} :
    partOf keys header = ⟨.primary primary, alignment⟩ ↔
      header.name.primary = primary ∧ header.priority = ⊥ ∧ header.alignment = alignment := by
  rw [← key_eq_none_iff, partOf]
  cases header.key with
  | none => simp
  | some key => simp

theorem partOf_secondary_iff {sections : OutputSections} {hs : List SectionHeader}
    (hfiled : Filed sections hs) {header : SectionHeader} {index : Nat}
    {sec : Secondary} (hsec : sections[index]? = some sec) {alignment : Alignment} :
    partOf sections.keys header = ⟨.secondary index, alignment⟩ ↔
      header.name.primary = sec.primary ∧ header.priority = (sec.priority : WithBot Nat) ∧
        header.alignment = alignment := by
  have hget : sections.keys[index]? = some sec.key := by
    rw [keys, List.getElem?_map, hsec, Option.map_some]
  obtain ⟨hlt, hkey⟩ := List.getElem?_eq_some_iff.mp hget
  rw [← and_assoc, ← key_eq_some_iff, partOf]
  cases hheader : header.key with
  | none => simp
  | some key =>
    have hfound : sections.keys.idxOf key = index ↔ key = sec.key := by
      constructor
      · rintro rfl
        rw [← hkey, List.getElem_idxOf]
      · rintro rfl
        rw [← hkey, hfiled.nodup.idxOf_getElem]
    simp only [PartId.mk.injEq, OutputSectionId.secondary.injEq, Option.some.injEq, hfound]
    rfl

/-- The output sections of an array with the priorities that they are for. -/
def OutputSections.slots (sections : OutputSections) (primary : Primary) :
    List (OutputSectionId × WithBot Nat) :=
  (.primary primary, ⊥) ::
    (sortBy (fun sec => sec.1.priority)
      (sections.zipIdx.filter fun sec => sec.1.primary = primary)).map
        fun sec => (.secondary sec.2, (sec.1.priority : WithBot Nat))

section Slots

variable {sections : OutputSections} {hs : List SectionHeader} {primary : Primary}
  {slot : OutputSectionId × WithBot Nat} {header : SectionHeader}

theorem slots_order (sections : OutputSections) (primary : Primary) :
    (sections.slots primary).map Prod.fst = sections.order primary := by
  rw [slots, order, List.map_cons, List.map_map]
  rfl

theorem mem_slots_iff : slot ∈ sections.slots primary ↔
    slot = (.primary primary, ⊥) ∨ ∃ index sec, sections[index]? = some sec ∧
      sec.primary = primary ∧ slot = (.secondary index, (sec.priority : WithBot Nat)) := by
  rw [slots, List.mem_cons, List.mem_map]
  apply or_congr Iff.rfl
  constructor
  · rintro ⟨⟨sec, index⟩, hmem, rfl⟩
    obtain ⟨hmem, hprimary⟩ := List.mem_filter.mp ((sortBy_perm _ _).mem_iff.mp hmem)
    exact ⟨index, sec, List.mem_zipIdx_iff_getElem?.mp hmem, of_decide_eq_true hprimary, rfl⟩
  · rintro ⟨index, sec, hsec, hprimary, rfl⟩
    refine ⟨(sec, index), (sortBy_perm _ _).mem_iff.mpr (List.mem_filter.mpr ⟨?_, ?_⟩), rfl⟩
    · exact List.mem_zipIdx_iff_getElem?.mpr hsec
    · exact decide_eq_true hprimary

/-- No two secondary sections of an array have one priority. -/
theorem slots_sorted (hnodup : sections.keys.Nodup) (primary : Primary) :
    ((sections.slots primary).map Prod.snd).Pairwise (· < ·) := by
  rw [slots, List.map_cons, List.map_map, List.pairwise_cons]
  constructor
  · intro priority hmem
    obtain ⟨sec, -, rfl⟩ := List.mem_map.mp hmem
    exact WithBot.bot_lt_coe _
  · have hsorted := sortBy_sorted (fun sec : Secondary × Nat => sec.1.priority)
      (sections.zipIdx.filter fun sec => sec.1.primary = primary)
    have hdistinct : (sections.zipIdx.filter fun sec => sec.1.primary = primary).Pairwise
        fun a b => a.1.priority ≠ b.1.priority := by
      have hkeys : sections.zipIdx.Pairwise fun a b => a.1.key ≠ b.1.key := by
        have hfst : (sections.zipIdx.map Prod.fst).map Secondary.key = sections.keys := by
          rw [List.zipIdx_map_fst, keys]
        rw [← hfst, List.map_map] at hnodup
        exact List.pairwise_map.mp hnodup
      apply (hkeys.filter _).imp_of_mem
      intro a b ha hb hne heq
      apply hne
      have ha := of_decide_eq_true (List.mem_filter.mp ha).2
      have hb := of_decide_eq_true (List.mem_filter.mp hb).2
      exact Prod.ext (ha.trans hb.symm) heq
    have hdistinct' := hdistinct.perm (sortBy_perm (fun sec : Secondary × Nat => sec.1.priority)
      (sections.zipIdx.filter fun sec => sec.1.primary = primary)).symm fun h => h.symm
    rw [List.pairwise_map]
    apply (hsorted.and hdistinct').imp
    intro a b hab
    exact WithBot.coe_lt_coe.mpr (lt_of_le_of_ne hab.1 hab.2)

theorem part_iff_of_slot (hfiled : Filed sections hs) (hslot : slot ∈ sections.slots primary)
    {alignment : Alignment} :
    partOf sections.keys header = ⟨slot.1, alignment⟩ ↔
      header.name.primary = primary ∧ header.priority = slot.2 ∧
        header.alignment = alignment := by
  rcases mem_slots_iff.mp hslot with rfl | ⟨index, sec, hsec, hprimary, rfl⟩
  · exact partOf_primary_iff
  · rw [← hprimary]
    exact partOf_secondary_iff hfiled hsec

theorem priority_mem_slots (hfiled : Filed sections hs) (hmem : header ∈ hs)
    (hprimary : header.name.primary = primary) :
    header.priority ∈ (sections.slots primary).map Prod.snd := by
  cases hpriority : header.priority with
  | bot => exact List.mem_cons_self
  | coe priority =>
    have hkey := key_eq_some_iff.mpr ⟨hprimary, hpriority⟩
    obtain ⟨sec, hsec, heq⟩ := List.mem_map.mp (hfiled.complete header hmem _ hkey)
    obtain ⟨index, hindex⟩ := List.mem_iff_getElem?.mp hsec
    obtain ⟨hprimary', hpriority'⟩ := Prod.mk.inj heq
    refine List.mem_map.mpr ⟨(.secondary index, sec.priority), ?_, congrArg _ hpriority'⟩
    exact mem_slots_iff.mpr (.inr ⟨index, sec, hindex, hprimary', rfl⟩)

end Slots

/-! ## The sections of an array in their order -/

/-- The input sections of an array. -/
def ofPrimary (primary : Primary) (inputs : List (Section W R)) : List (Section W R) :=
  inputs.filter fun sec => sec.header.name.primary = primary

/-- Input sections with the parts that they have in the end. -/
def withParts (keys : List (Primary × Nat)) (inputs : List (Section W R)) : FiledSections W R :=
  inputs.map fun sec => (sec, some (partOf keys sec.header))

theorem fileObjects_eq (objects : List (List (Section W R))) :
    fileObjects objects =
      (withParts (applyInitFiniSecondaries [] (objects.flatten.map Section.header)).2.keys
          objects.flatten,
        (applyInitFiniSecondaries [] (objects.flatten.map Section.header)).2) := by
  have hflatten : (objects.map fun object => object.map Section.header).flatten =
      objects.flatten.map Section.header := List.map_flatten.symm
  have hall := assignSectionIds_flatten []
    (objects.map fun object => object.map Section.header)
  rw [hflatten] at hall
  obtain ⟨hparts, hsections⟩ := Prod.mk.inj hall
  have hkeys := applyInitFiniSecondaries_keys [] (objects.flatten.map Section.header)
  have happly := applyInitFiniSecondaries_parts [] (objects.flatten.map Section.header)
  rw [fileObjects]
  dsimp only
  rw [hparts, hsections, happly, ← hkeys, List.map_map, withParts, List.map_prod_left_eq_zip]
  rfl

theorem filed_objects (objects : List (List (Section W R))) :
    Filed (applyInitFiniSecondaries [] (objects.flatten.map Section.header)).2
      (objects.flatten.map Section.header) :=
  filed_nil.applyInitFiniSecondaries _

section Buckets

variable {sections : OutputSections} {inputs : List (Section W R)} {primary : Primary}
  {slot : OutputSectionId × WithBot Nat}

theorem mem_partAlignments (header : SectionHeader) : header.alignment ∈ partAlignments := by
  apply List.mem_map.mpr
  refine ⟨header.alignment.exponent, List.mem_reverse.mpr (List.mem_range.mpr ?_), rfl⟩
  exact Nat.lt_succ_of_le header.supported

theorem partAlignments_sorted :
    (partAlignments.map fun alignment => OrderDual.toDual alignment.exponent).Pairwise (· < ·) := by
  decide +kernel

theorem sectionsAt_withParts (hfiled : Filed sections (inputs.map Section.header))
    (hslot : slot ∈ sections.slots primary) (alignment : Alignment) :
    (withParts sections.keys inputs).sectionsAt ⟨slot.1, alignment⟩ =
      ((ofPrimary primary inputs).filter fun sec => sec.header.priority = slot.2).filter
        fun sec => OrderDual.toDual sec.header.alignment.exponent =
          OrderDual.toDual alignment.exponent := by
  rw [FiledSections.sectionsAt, withParts, List.filter_map, List.map_map, ofPrimary,
    List.filter_filter, List.filter_filter]
  have hfst : (Prod.fst ∘ fun sec : Section W R =>
      (sec, some (partOf sections.keys sec.header))) = id := rfl
  rw [hfst, List.map_id]
  apply List.filter_congr
  intro sec _
  have hpart : partOf sections.keys sec.header = ⟨slot.1, alignment⟩ ↔ _ :=
    part_iff_of_slot hfiled hslot
  have hexponent : OrderDual.toDual sec.header.alignment.exponent =
      OrderDual.toDual alignment.exponent ↔ sec.header.alignment = alignment := by
    rw [OrderDual.toDual_inj]
    exact ⟨fun h => congrArg Alignment.mk h, congrArg Alignment.exponent⟩
  simp only [Function.comp_apply, Option.some.injEq, hpart, hexponent, Bool.decide_and]
  grind

theorem partsSections_allParts (hfiled : Filed sections (inputs.map Section.header))
    (hslot : slot ∈ sections.slots primary) :
    partsSections ((withParts sections.keys inputs).allParts slot.1) =
      sortBy (fun sec => OrderDual.toDual sec.header.alignment.exponent)
        ((ofPrimary primary inputs).filter fun sec => sec.header.priority = slot.2) := by
  have hcovered : ∀ sec ∈ (ofPrimary primary inputs).filter
      (fun sec => sec.header.priority = slot.2),
      OrderDual.toDual sec.header.alignment.exponent ∈
        partAlignments.map fun alignment => OrderDual.toDual alignment.exponent :=
    fun sec _ => List.mem_map_of_mem (mem_partAlignments sec.header)
  rw [sortBy_eq_buckets _ partAlignments_sorted hcovered, partsSections,
    FiledSections.allParts, List.flatMap_map, List.flatMap_map]
  apply List.flatMap_congr
  intro alignment _
  exact sectionsAt_withParts hfiled hslot alignment

/-- The parts that nothing is filed under do not matter for what is in a section. -/
theorem partsSections_parts (filed : FiledSections W R) (id : OutputSectionId) :
    partsSections (filed.parts id) = partsSections (filed.allParts id) := by
  cases id with
  | primary primary => rfl
  | secondary index =>
    have hfilter : ∀ parts : List (Part W R),
        partsSections (parts.filter fun part => !part.sections.isEmpty) = partsSections parts := by
      intro parts
      induction parts with
      | nil => rfl
      | cons part rest ih =>
        by_cases hempty : part.sections = []
        · rw [List.filter_cons_of_neg (by simp [hempty]), ih, partsSections, partsSections,
            List.flatMap_cons, hempty, List.nil_append]
        · rw [List.filter_cons_of_pos (by simp [hempty]), partsSections, List.flatMap_cons]
          exact congrArg (part.sections ++ ·) ih
    rw [← hfilter (filed.allParts (.secondary index)), FiledSections.parts]
    split
    · rename_i hnone
      rw [hnone]
      rfl
    · rename_i hsome
      rw [hsome]

theorem alignment_of_mem_sectionsAt {keys : List (Primary × Nat)} {id : OutputSectionId}
    {alignment : Alignment} {sec : Section W R}
    (h : sec ∈ (withParts keys inputs).sectionsAt ⟨id, alignment⟩) :
    sec.header.alignment = alignment := by
  obtain ⟨entry, hentry, rfl⟩ := List.mem_map.mp h
  obtain ⟨hentry, hpart⟩ := List.mem_filter.mp hentry
  obtain ⟨sec, -, rfl⟩ := List.mem_map.mp hentry
  have hpart := Option.some.inj (of_decide_eq_true hpart)
  have hsame : (partOf keys sec.header).alignment = sec.header.alignment := by
    unfold partOf
    split <;> rfl
  exact hsame.symm.trans (congrArg PartId.alignment hpart)

theorem mem_allParts {filed : FiledSections W R} {id : OutputSectionId} {part : Part W R} :
    part ∈ filed.allParts id ↔
      part.alignment ∈ partAlignments ∧ part.sections = filed.sectionsAt ⟨id, part.alignment⟩ := by
  rw [FiledSections.allParts, List.mem_map]
  constructor
  · rintro ⟨alignment, hmem, rfl⟩
    exact ⟨hmem, rfl⟩
  · rintro ⟨hmem, hsections⟩
    exact ⟨part.alignment, hmem, by rw [← hsections]⟩

/-- The sections of a part are aligned as it is. -/
theorem alignment_of_mem_part {keys : List (Primary × Nat)} {id : OutputSectionId}
    {part : Part W R} (hpart : part ∈ (withParts keys inputs).allParts id) {sec : Section W R}
    (hsec : sec ∈ part.sections) : sec.header.alignment = part.alignment := by
  obtain ⟨-, hsections⟩ := mem_allParts.mp hpart
  rw [hsections] at hsec
  exact alignment_of_mem_sectionsAt hsec

theorem allParts_descending (filed : FiledSections W R) (id : OutputSectionId) :
    (filed.allParts id).Pairwise fun part next =>
      next.alignment.exponent ≤ part.alignment.exponent := by
  rw [FiledSections.allParts, List.pairwise_map]
  apply (List.pairwise_map.mp partAlignments_sorted).imp
  intro a b hlt
  exact (OrderDual.toDual_lt_toDual.mp hlt).le

/-- The parts of an output section are all of them, but for empty ones. -/
theorem mem_parts_iff {filed : FiledSections W R} {id : OutputSectionId} {part : Part W R}
    (hne : part.sections ≠ []) : part ∈ filed.parts id ↔ part ∈ filed.allParts id := by
  cases id with
  | primary primary => exact Iff.rfl
  | secondary index =>
    have hfilter : part ∈ (filed.allParts (.secondary index)).filter
        (fun part => !part.sections.isEmpty) ↔ part ∈ filed.allParts (.secondary index) := by
      rw [List.mem_filter]
      exact and_iff_left (by simpa using hne)
    rw [← hfilter, FiledSections.parts]
    split
    · rename_i hnone
      rw [hnone, List.mem_singleton]
      constructor
      · rintro rfl
        exact absurd rfl hne
      · exact fun h => nomatch h
    · rename_i hsome
      rw [hsome]

theorem parts_ne_nil (filed : FiledSections W R) (id : OutputSectionId) : filed.parts id ≠ [] := by
  cases id with
  | primary primary => exact List.cons_ne_nil _ _
  | secondary index =>
    rw [FiledSections.parts]
    split <;> exact List.cons_ne_nil _ _

theorem parts_descending (filed : FiledSections W R) (id : OutputSectionId) :
    (filed.parts id).Pairwise fun part next =>
      next.alignment.exponent ≤ part.alignment.exponent := by
  cases id with
  | primary primary => exact allParts_descending filed (.primary primary)
  | secondary index =>
    rw [FiledSections.parts]
    split
    · exact List.pairwise_singleton _ _
    · rename_i hsome
      rw [← hsome]
      exact (allParts_descending filed (.secondary index)).filter _

theorem parts_wellFormed (keys : List (Primary × Nat)) (inputs : List (Section W R))
    (id : OutputSectionId) : Cursor.WellFormed ((withParts keys inputs).parts id) where
  nonempty := parts_ne_nil _ id
  aligned := by
    intro part hpart hne
    obtain ⟨sec, hsec⟩ := List.exists_mem_of_ne_nil _ hne
    rw [← alignment_of_mem_part ((mem_parts_iff hne).mp hpart) hsec]
    exact sec.header.aligned
  descending := parts_descending _ id

/-- The parts of a section are full where the sizes of its input sections fit their alignments. -/
theorem full_parts_iff (keys : List (Primary × Nat)) (inputs : List (Section W R))
    (id : OutputSectionId) :
    (∀ part ∈ (withParts keys inputs).parts id, part.Full) ↔
      ∀ sec ∈ partsSections ((withParts keys inputs).allParts id),
        sec.header.alignment.value ∣ sec.header.size := by
  constructor
  · intro h sec hsec
    obtain ⟨part, hpart, hmem⟩ := List.mem_flatMap.mp hsec
    rw [alignment_of_mem_part hpart hmem]
    exact h part ((mem_parts_iff (List.ne_nil_of_mem hmem)).mpr hpart) sec hmem
  · intro h part hpart sec hsec
    have hall := (mem_parts_iff (List.ne_nil_of_mem hsec)).mp hpart
    rw [← alignment_of_mem_part hall hsec]
    exact h sec (List.mem_flatMap.mpr ⟨part, hall, hsec⟩)

theorem sections_ne_nil_of_size {part : Part W R} (h : part.size ≠ 0) : part.sections ≠ [] := by
  intro hnil
  apply h
  rw [Part.size, hnil]
  rfl

/-- A section takes space exactly where it has words. -/
theorem size_ne_zero_iff {part : Part W R} :
    part.size ≠ 0 ↔ ∃ sec ∈ part.sections, sec.header.words ≠ 0 := by
  have hzero : part.size = 0 ↔ ∀ sec ∈ part.sections, sec.header.words = 0 := by
    rw [Part.size, List.sum_eq_zero_iff, List.forall_mem_map]
    apply forall₂_congr
    intro sec _
    have hle := part.alignment.le_alignUp sec.header.size
    have hsize : sec.header.size = sec.header.words * 8 := rfl
    constructor
    · intro h
      omega
    · intro h
      rw [hsize, h, Nat.zero_mul]
      exact Alignment.alignUp_eq_iff.mpr (Nat.dvd_zero _)
  rw [ne_eq, hzero, not_forall₂]
  simp only [exists_prop, ne_eq]

/-- The alignment of an output section is the least that covers its own one and those of its parts
that are not empty. -/
theorem maxAlignment_le_iff {parts : List (Part W R)}
    (hdescending : parts.Pairwise fun part next =>
      next.alignment.exponent ≤ part.alignment.exponent)
    (minAlignment : Alignment) (bound : Nat) :
    (maxAlignment parts minAlignment).exponent ≤ bound ↔
      minAlignment.exponent ≤ bound ∧
        ∀ part ∈ parts, part.size ≠ 0 → part.alignment.exponent ≤ bound := by
  have hmax : (maxAlignment parts minAlignment).exponent ≤ bound ↔
      ((parts.find? fun part => part.size ≠ 0).elim MIN Part.alignment).exponent ≤ bound ∧
        minAlignment.exponent ≤ bound := Nat.max_le
  have hfind : ((parts.find? fun part => part.size ≠ 0).elim MIN Part.alignment).exponent ≤ bound ↔
      ∀ part ∈ parts, part.size ≠ 0 → part.alignment.exponent ≤ bound := by
    induction parts with
    | nil => exact iff_of_true (Nat.zero_le _) fun _ h => nomatch h
    | cons first rest ih =>
      obtain ⟨hnext, hrest⟩ := List.pairwise_cons.mp hdescending
      rw [List.forall_mem_cons]
      by_cases hfirst : first.size = 0
      · rw [List.find?_cons_of_neg (by simp [hfirst]), ih hrest Nat.max_le]
        exact (and_iff_right fun h => absurd hfirst h).symm
      · rw [List.find?_cons_of_pos (by simp [hfirst])]
        constructor
        · intro h
          exact ⟨fun _ => h, fun part hpart _ => (hnext part hpart).trans h⟩
        · exact fun h => h.1 hfirst
  rw [hmax, hfind, and_comm]

theorem mem_partsSections_slot (hfiled : Filed sections (inputs.map Section.header))
    (hslot : slot ∈ sections.slots primary) {sec : Section W R} :
    sec ∈ partsSections ((withParts sections.keys inputs).allParts slot.1) ↔
      sec ∈ ofPrimary primary inputs ∧ sec.header.priority = slot.2 := by
  rw [partsSections_allParts hfiled hslot, (sortBy_perm _ _).mem_iff, List.mem_filter,
    decide_eq_true_iff]

theorem maxAlignment_slot_le_iff (hfiled : Filed sections (inputs.map Section.header))
    (hslot : slot ∈ sections.slots primary) (minAlignment : Alignment) (bound : Nat) :
    (maxAlignment ((withParts sections.keys inputs).parts slot.1) minAlignment).exponent ≤ bound ↔
      minAlignment.exponent ≤ bound ∧ ∀ sec ∈ ofPrimary primary inputs,
        sec.header.priority = slot.2 → sec.header.words ≠ 0 →
          sec.header.alignment.exponent ≤ bound := by
  rw [maxAlignment_le_iff (parts_descending _ _)]
  apply and_congr_right
  intro _
  constructor
  · intro h sec hsec hpriority hwords
    have hplaced := (mem_partsSections_slot hfiled hslot).mpr ⟨hsec, hpriority⟩
    obtain ⟨part, hpart, hmem⟩ := List.mem_flatMap.mp hplaced
    rw [alignment_of_mem_part hpart hmem]
    exact h part ((mem_parts_iff (List.ne_nil_of_mem hmem)).mpr hpart)
      (size_ne_zero_iff.mpr ⟨sec, hmem, hwords⟩)
  · intro h part hpart hsize
    obtain ⟨sec, hmem, hwords⟩ := size_ne_zero_iff.mp hsize
    have hall := (mem_parts_iff (List.ne_nil_of_mem hmem)).mp hpart
    obtain ⟨hsec, hpriority⟩ := (mem_partsSections_slot hfiled hslot).mp
      (List.mem_flatMap.mpr ⟨part, hall, hmem⟩)
    rw [← alignment_of_mem_part hall hmem]
    exact h sec hsec hpriority hwords

end Buckets

/-! ## When nothing is padded -/

/-- The alignment of the start of an array: that of the sections in its primary section, if there
are any with words. -/
def startAlignment (hs : List SectionHeader) : Alignment :=
  hs.foldr
    (fun header alignment =>
      if header.priority = ⊥ ∧ header.words ≠ 0 then header.alignment.max alignment
      else alignment)
    USIZE

/-- The words of sections that are filed under smaller priorities. -/
def wordsBefore (hs : List SectionHeader) (header : SectionHeader) : Nat :=
  ((hs.filter fun other => other.priority < header.priority).map SectionHeader.words).sum

/-- The sizes of the sections fit their alignments, and so does what comes before each section that
has a priority. -/
def Unpadded (address : Nat) (hs : List SectionHeader) : Prop :=
  (∀ header ∈ hs, header.alignment.value ∣ header.size) ∧
    ∀ header ∈ hs, header.priority ≠ ⊥ → header.alignment.value ∣
      (startAlignment hs).alignUp address + wordsBefore hs header * wordSize

theorem startAlignment_le_iff (hs : List SectionHeader) (bound : Nat) :
    (startAlignment hs).exponent ≤ bound ↔ USIZE.exponent ≤ bound ∧
      ∀ header ∈ hs, header.priority = ⊥ → header.words ≠ 0 →
        header.alignment.exponent ≤ bound := by
  induction hs with
  | nil => exact (and_iff_left fun _ h => nomatch h).symm
  | cons header rest ih =>
    rw [List.forall_mem_cons]
    by_cases hcounted : header.priority = ⊥ ∧ header.words ≠ 0
    · have hcons : startAlignment (header :: rest) = header.alignment.max (startAlignment rest) :=
        if_pos hcounted
      have hmax : (header.alignment.max (startAlignment rest)).exponent ≤ bound ↔
          header.alignment.exponent ≤ bound ∧ (startAlignment rest).exponent ≤ bound := Nat.max_le
      rw [hcons, hmax, ih]
      constructor
      · rintro ⟨hheader, hsize, hrest⟩
        exact ⟨hsize, fun _ _ => hheader, hrest⟩
      · rintro ⟨hsize, hheader, hrest⟩
        exact ⟨hheader hcounted.1 hcounted.2, hsize, hrest⟩
    · have hcons : startAlignment (header :: rest) = startAlignment rest := if_neg hcounted
      rw [hcons, ih]
      apply and_congr_right
      intro _
      exact (and_iff_right fun hpriority hwords => absurd ⟨hpriority, hwords⟩ hcounted).symm

theorem alignment_eq_of_le_iff {a b : Alignment}
    (h : ∀ bound, a.exponent ≤ bound ↔ b.exponent ≤ bound) : a = b :=
  congrArg Alignment.mk (Nat.le_antisymm ((h _).mpr (Nat.le_refl _)) ((h _).mp (Nat.le_refl _)))

section Unpadded

variable {sections : OutputSections} {inputs : List (Section W R)} {primary : Primary}

theorem maxAlignment_primary (hfiled : Filed sections (inputs.map Section.header))
    (primary : Primary) :
    maxAlignment ((withParts sections.keys inputs).parts (.primary primary)) USIZE =
      startAlignment ((ofPrimary primary inputs).map Section.header) := by
  apply alignment_eq_of_le_iff
  intro bound
  rw [startAlignment_le_iff, List.forall_mem_map]
  exact maxAlignment_slot_le_iff hfiled (mem_slots_iff.mpr (.inl rfl)) USIZE bound

/-- A secondary section is aligned as the most aligned input section, with words or without. -/
theorem maxAlignment_secondary (hfiled : Filed sections (inputs.map Section.header)) {index : Nat}
    {sec : Secondary} (hsec : sections[index]? = some sec) (hprimary : sec.primary = primary) :
    maxAlignment ((withParts sections.keys inputs).parts (.secondary index))
      (sections.minAlignment (.secondary index)) = sec.minAlignment := by
  have hmin : sections.minAlignment (.secondary index) = sec.minAlignment := by
    rw [OutputSections.minAlignment, hsec]
    rfl
  have hslot : (.secondary index, (sec.priority : WithBot Nat)) ∈ sections.slots primary :=
    mem_slots_iff.mpr (.inr ⟨index, sec, hsec, hprimary, rfl⟩)
  apply alignment_eq_of_le_iff
  intro bound
  rw [hmin, maxAlignment_slot_le_iff hfiled hslot]
  apply and_iff_left_of_imp
  intro hbound other hother hpriority _
  obtain ⟨hmem, hother⟩ := List.mem_filter.mp hother
  have hkey : other.header.key = some sec.key :=
    key_eq_some_iff.mpr ⟨(of_decide_eq_true hother).trans hprimary.symm, hpriority⟩
  exact (hfiled.covers sec (List.mem_of_getElem? hsec) _ (List.mem_map_of_mem hmem) hkey).trans
    hbound

/-- The output sections of an array, as they are laid out. -/
def outputs (sections : OutputSections) (primary : Primary) (inputs : List (Section W R)) :
    List (List (Part W R) × Alignment) :=
  (sections.slots primary).map fun slot =>
    ((withParts sections.keys inputs).parts slot.1, sections.minAlignment slot.1)

theorem outputsSections_map (slots : List (OutputSectionId × WithBot Nat))
    (hfiled : Filed sections (inputs.map Section.header))
    (hslots : ∀ slot ∈ slots, slot ∈ sections.slots primary) :
    Cursor.outputsSections (slots.map fun slot =>
        ((withParts sections.keys inputs).parts slot.1, sections.minAlignment slot.1)) =
      (slots.map Prod.snd).flatMap fun priority =>
        sortBy (fun sec => OrderDual.toDual sec.header.alignment.exponent)
          ((ofPrimary primary inputs).filter fun sec => sec.header.priority = priority) := by
  rw [Cursor.outputsSections, List.flatMap_map, List.flatMap_map]
  apply List.flatMap_congr
  intro slot hslot
  rw [partsSections_parts]
  exact partsSections_allParts hfiled (hslots slot hslot)

theorem wordsOf_perm {inputs inputs' : List (Section W R)} (h : inputs.Perm inputs') :
    wordsOf inputs = wordsOf inputs' := (h.map _).sum_eq

theorem priorities_cover (hfiled : Filed sections (inputs.map Section.header)) :
    ∀ sec ∈ ofPrimary primary inputs,
      sec.header.priority ∈ (sections.slots primary).map Prod.snd := by
  intro sec hsec
  obtain ⟨hmem, hprimary⟩ := List.mem_filter.mp hsec
  exact priority_mem_slots hfiled (List.mem_map_of_mem hmem) (of_decide_eq_true hprimary)

/-- The priority, and within it the alignment, from the highest on. -/
def placeKey (header : SectionHeader) : WithBot Nat ×ₗ Natᵒᵈ :=
  toLex (header.priority, OrderDual.toDual header.alignment.exponent)

theorem outputsSections_outputs (hfiled : Filed sections (inputs.map Section.header))
    (primary : Primary) :
    Cursor.outputsSections (outputs sections primary inputs) =
      sortBy (fun sec => placeKey sec.header) (ofPrimary primary inputs) := by
  have hcovered : ∀ sec ∈ ofPrimary primary inputs, OrderDual.toDual sec.header.alignment.exponent ∈
      partAlignments.map fun alignment => OrderDual.toDual alignment.exponent :=
    fun sec _ => List.mem_map_of_mem (mem_partAlignments sec.header)
  have hlex := sortBy_lex (slots_sorted hfiled.nodup primary) partAlignments_sorted
    (priorities_cover hfiled) hcovered
  exact (outputsSections_map _ hfiled fun _ h => h).trans hlex.symm

/-- What is laid out before an output section are the sections of smaller priorities. -/
theorem wordsOf_before (hfiled : Filed sections (inputs.map Section.header))
    {before after : List (OutputSectionId × WithBot Nat)} {slot : OutputSectionId × WithBot Nat}
    (hslots : sections.slots primary = before ++ slot :: after) :
    wordsOf (Cursor.outputsSections (before.map fun slot =>
        ((withParts sections.keys inputs).parts slot.1, sections.minAlignment slot.1))) =
      wordsOf ((ofPrimary primary inputs).filter fun sec => sec.header.priority < slot.2) := by
  have hmem : ∀ slot ∈ before, slot ∈ sections.slots primary := by
    intro other hother
    rw [hslots]
    exact List.mem_append_left _ hother
  have hsorted := slots_sorted hfiled.nodup primary
  have hcover : ∀ sec ∈ ofPrimary primary inputs,
      sec.header.priority ∈ (sections.slots primary).map Prod.snd := priorities_cover hfiled
  rw [hslots, List.map_append, List.map_cons] at hsorted hcover
  have hperm := buckets_perm (fun sec : Section W R => sec.header.priority) hsorted hcover
  have hsort : ((before.map Prod.snd).flatMap fun priority =>
      sortBy (fun sec => OrderDual.toDual sec.header.alignment.exponent)
        ((ofPrimary primary inputs).filter fun sec => sec.header.priority = priority)).Perm
      ((before.map Prod.snd).flatMap fun priority =>
        (ofPrimary primary inputs).filter fun sec => sec.header.priority = priority) :=
    List.Perm.flatMap_left _ fun priority _ => sortBy_perm _ _
  rw [outputsSections_map before hfiled hmem, wordsOf_perm (hsort.trans hperm)]

theorem wordsBefore_headers (inputs : List (Section W R)) (header : SectionHeader) :
    wordsBefore (inputs.map Section.header) header =
      wordsOf (inputs.filter fun sec => sec.header.priority < header.priority) := by
  rw [wordsBefore, List.filter_map, List.map_map]
  rfl

theorem outputs_wellFormed (sections : OutputSections) (primary : Primary)
    (inputs : List (Section W R)) :
    ∀ output ∈ outputs sections primary inputs, Cursor.WellFormed output.1 := by
  intro output houtput
  obtain ⟨slot, -, rfl⟩ := List.mem_map.mp houtput
  exact parts_wellFormed _ _ _

theorem outputs_full_iff (hfiled : Filed sections (inputs.map Section.header))
    (primary : Primary) :
    (∀ output ∈ outputs sections primary inputs, ∀ part ∈ output.1, part.Full) ↔
      ∀ header ∈ (ofPrimary primary inputs).map Section.header,
        header.alignment.value ∣ header.size := by
  rw [outputs, List.forall_mem_map, List.forall_mem_map]
  constructor
  · intro h sec hsec
    obtain ⟨slot, hslot, hpriority⟩ := List.mem_map.mp (priorities_cover hfiled sec hsec)
    exact (full_parts_iff _ _ _).mp (h slot hslot) sec
      ((mem_partsSections_slot hfiled hslot).mpr ⟨hsec, hpriority.symm⟩)
  · intro h slot hslot
    apply (full_parts_iff _ _ _).mpr
    intro sec hsec
    exact h sec ((mem_partsSections_slot hfiled hslot).mp hsec).1

/-- The places where output sections start fit their alignments, if those of the input sections with
a priority do. The primary section starts the array. -/
theorem outputs_start_iff (hfiled : Filed sections (inputs.map Section.header))
    (primary : Primary) {start : Nat}
    (hstart : (startAlignment ((ofPrimary primary inputs).map Section.header)).value ∣ start) :
    (∀ before output after, outputs sections primary inputs = before ++ output :: after →
      (maxAlignment output.1 output.2).value ∣
        start + wordsOf (Cursor.outputsSections before) * wordSize) ↔
      ∀ header ∈ (ofPrimary primary inputs).map Section.header, header.priority ≠ ⊥ →
        header.alignment.value ∣ start +
          wordsBefore ((ofPrimary primary inputs).map Section.header) header * wordSize := by
  constructor
  · intro h header hheader hpriority
    obtain ⟨input, hinput, rfl⟩ := List.mem_map.mp hheader
    obtain ⟨slot, hslot, hslot'⟩ := List.mem_map.mp (priorities_cover hfiled input hinput)
    obtain ⟨before, after, hslots⟩ := List.append_of_mem hslot
    have hplace := h _ _ _ (by rw [outputs, hslots, List.map_append, List.map_cons])
    rw [wordsOf_before hfiled hslots, hslot', ← wordsBefore_headers] at hplace
    rcases mem_slots_iff.mp hslot with rfl | ⟨index, sec, hsec, hprimary, rfl⟩
    · exact absurd hslot'.symm hpriority
    · rw [maxAlignment_secondary hfiled hsec hprimary] at hplace
      obtain ⟨hmem, hsame⟩ := List.mem_filter.mp hinput
      have hkey : input.header.key = some sec.key :=
        key_eq_some_iff.mpr ⟨(of_decide_eq_true hsame).trans hprimary.symm, hslot'.symm⟩
      have hcovers := hfiled.covers sec (List.mem_of_getElem? hsec) input.header
        (List.mem_map_of_mem hmem) hkey
      exact (Alignment.value_dvd_value hcovers).trans hplace
  · intro h before output after heq
    obtain ⟨slots, rest, hslots, rfl, hrest⟩ := List.map_eq_append_iff.mp heq
    obtain ⟨slot, slots', rfl, rfl, rfl⟩ := List.map_eq_cons_iff.mp hrest
    have hslot : slot ∈ sections.slots primary := by
      rw [hslots]
      exact List.mem_append_right _ List.mem_cons_self
    rcases mem_slots_iff.mp hslot with rfl | ⟨index, sec, hsec, hprimary, rfl⟩
    · have hnone : (ofPrimary primary inputs).filter
          (fun sec => sec.header.priority < (⊥ : WithBot Nat)) = [] := by
        apply List.filter_eq_nil_iff.mpr
        intro sec _
        simp
      rw [wordsOf_before hfiled hslots, hnone]
      show (maxAlignment _ USIZE).value ∣ start + 0
      rw [maxAlignment_primary hfiled]
      exact hstart
    · obtain ⟨header, hheader, hkey, hattained⟩ :=
        hfiled.attained sec (List.mem_of_getElem? hsec)
      obtain ⟨hsame, hpriority⟩ := key_eq_some_iff.mp hkey
      obtain ⟨input, hinput, rfl⟩ := List.mem_map.mp hheader
      have hmem : input ∈ ofPrimary primary inputs :=
        List.mem_filter.mpr ⟨hinput, decide_eq_true (hsame.trans hprimary)⟩
      have hplace := h input.header (List.mem_map_of_mem hmem)
        (hpriority ▸ WithBot.coe_ne_bot)
      rw [wordsBefore_headers, hpriority] at hplace
      rw [wordsOf_before hfiled hslots, maxAlignment_secondary hfiled hsec hprimary, ← hattained]
      exact hplace

/-- The words of an array are those of its sections in the order of priorities and alignments, and
nothing else exactly where nothing is padded. -/
theorem arrayImage_eq_iff (address : Nat) (objects : List (List (Section W R)))
    (primary : Primary) (expected : List (Entry W R)) :
    arrayImage address objects primary = expected.map some ↔
      entriesOf (sortBy (fun sec => placeKey sec.header) (ofPrimary primary objects.flatten)) =
          expected ∧
        Unpadded address ((ofPrimary primary objects.flatten).map Section.header) := by
  have hfiled := filed_objects objects
  generalize hsections : (applyInitFiniSecondaries [] (objects.flatten.map Section.header)).2 =
    sections at hfiled
  have hstart : arrayStart address objects primary =
      (startAlignment ((ofPrimary primary objects.flatten).map Section.header)).alignUp
        address := by
    rw [arrayStart, fileObjects_eq, hsections, maxAlignment_primary hfiled]
  have hword : wordSize ∣ arrayStart address objects primary := by
    rw [hstart]
    apply Nat.dvd_trans _ (Alignment.dvd_alignUp _ _)
    apply Cursor.wordSize_dvd_value
    exact ((startAlignment_le_iff _ _).mp (Nat.le_refl _)).1
  have himage : arrayImage address objects primary =
      (Cursor.layoutAll ⟨arrayStart address objects primary, []⟩
        (outputs sections primary objects.flatten)).image := by
    rw [arrayImage, fileObjects_eq, hsections]
    show (((sections.order primary).foldl _ _ : Cursor (Entry W R)).image) = _
    rw [← slots_order, List.foldl_map, Cursor.layoutAll, outputs, List.foldl_map]
  have hempty : (⟨arrayStart address objects primary, []⟩ : Cursor (Entry W R)).Holds
      (arrayStart address objects primary) [] := ⟨rfl, rfl⟩
  have hholds := hempty.layoutAll hword (outputs_wellFormed sections primary objects.flatten)
  have hall := Cursor.layoutAll_memOffset_eq_iff
    (⟨arrayStart address objects primary, []⟩ : Cursor (Entry W R))
    (outputs_wellFormed sections primary objects.flatten)
  rw [outputs_full_iff hfiled, outputs_start_iff hfiled primary (by
    rw [hstart]
    exact Alignment.dvd_alignUp _ _)] at hall
  rw [himage, Cursor.image_eq_iff hholds, List.nil_append, entriesOf_length, hall,
    outputsSections_outputs hfiled, Unpadded, ← hstart]

end Unpadded

end JdxLinker.InitFini
