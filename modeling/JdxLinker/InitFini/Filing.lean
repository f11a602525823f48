import JdxLinker.InitFini.Sections

/-!
# Filing constructor and destructor sections

The sections of each priority go to a secondary output section of their own, which is created when
the first of them is met. A section whose suffix is not read as a priority stays in the primary.
-/

namespace JdxLinker.InitFini

open JdxLinker.Alignment (USIZE)

/-- A section for one of the arrays, of whole words and aligned for them. -/
structure SectionHeader where
  name : SectionName
  alignment : Alignment
  aligned : USIZE.exponent ≤ alignment.exponent
  supported : alignment.exponent ≤ Alignment.MAX_ALIGNMENT_EXPONENT
  words : Nat
  deriving DecidableEq

namespace SectionHeader

/-- The priority that a section is filed under; the primary section comes first. -/
def priority (header : SectionHeader) : WithBot Nat := initFiniPriority header.name.bytes

/-- The array and the priority that have a secondary section of their own. -/
def key (header : SectionHeader) : Option (Primary × Nat) :=
  (initFiniPriority header.name.bytes).map (header.name.primary, ·)

def size (header : SectionHeader) : Nat := header.words * wordSize

end SectionHeader

/-- An output section for the input sections of one priority. -/
structure Secondary where
  primary : Primary
  priority : Nat
  minAlignment : Alignment

namespace Secondary

def key (sec : Secondary) : Primary × Nat := (sec.primary, sec.priority)

def bumpMinAlignment (alignment : Alignment) (sec : Secondary) : Secondary :=
  { sec with minAlignment := sec.minAlignment.max alignment }

end Secondary

/-- The secondary sections in the order in which they are created. -/
abbrev OutputSections := List Secondary

inductive OutputSectionId where
  | primary (primary : Primary)
  | secondary (index : Nat)
  deriving DecidableEq

structure PartId where
  outputSection : OutputSectionId
  alignment : Alignment
  deriving DecidableEq

namespace OutputSections

/-- The map from keys to secondary sections, by the places of the sections. -/
def keys (sections : OutputSections) : List (Primary × Nat) := sections.map Secondary.key

def getOrCreateInitFiniSecondary (sections : OutputSections) (primary : Primary) (priority : Nat)
    (minAlignment : Alignment) : Nat × OutputSections :=
  match sections.keys.idxOf? (primary, priority) with
  | some index => (index, sections.modify index (Secondary.bumpMinAlignment minAlignment))
  | none => (sections.length, sections ++ [⟨primary, priority, minAlignment⟩])

/-- Where a section of an object goes: by the placement rules, then by its priority. -/
def filePart (sections : OutputSections) (header : SectionHeader) :
    Option PartId × OutputSections :=
  match lookup header.name.bytes with
  | none => (none, sections)
  | some primary =>
    match initFiniPriority header.name.bytes with
    | none => (some ⟨.primary primary, header.alignment⟩, sections)
    | some priority =>
      let (index, sections) :=
        sections.getOrCreateInitFiniSecondary primary priority header.alignment
      (some ⟨.secondary index, header.alignment⟩, sections)

def applyInitFiniSecondaries (sections : OutputSections) :
    List SectionHeader → List (Option PartId) × OutputSections
  | [] => ([], sections)
  | header :: rest =>
    let (part, sections) := filePart sections header
    let (parts, sections) := applyInitFiniSecondaries sections rest
    (part :: parts, sections)

/-- All objects are filed one after the other. -/
def assignSectionIds (sections : OutputSections) :
    List (List SectionHeader) → List (List (Option PartId)) × OutputSections
  | [] => ([], sections)
  | object :: rest =>
    let (part, sections) := applyInitFiniSecondaries sections object
    let (parts, sections) := assignSectionIds sections rest
    (part :: parts, sections)

theorem applyInitFiniSecondaries_append (sections : OutputSections) (hs rest : List SectionHeader) :
    sections.applyInitFiniSecondaries (hs ++ rest) =
      ((sections.applyInitFiniSecondaries hs).1 ++
          ((sections.applyInitFiniSecondaries hs).2.applyInitFiniSecondaries rest).1,
        ((sections.applyInitFiniSecondaries hs).2.applyInitFiniSecondaries rest).2) := by
  induction hs generalizing sections with
  | nil => rfl
  | cons header hs ih =>
    show ((sections.filePart header).1 ::
        ((sections.filePart header).2.applyInitFiniSecondaries (hs ++ rest)).1,
      ((sections.filePart header).2.applyInitFiniSecondaries (hs ++ rest)).2) = _
    rw [ih]
    rfl

/-- What is filed where does not depend on how the sections are divided among objects. -/
theorem assignSectionIds_flatten (sections : OutputSections) (objects : List (List SectionHeader)) :
    ((sections.assignSectionIds objects).1.flatten, (sections.assignSectionIds objects).2) =
      sections.applyInitFiniSecondaries objects.flatten := by
  induction objects generalizing sections with
  | nil => rfl
  | cons object objects ih =>
    have hrest := ih (sections.applyInitFiniSecondaries object).2
    rw [List.flatten_cons, applyInitFiniSecondaries_append, ← hrest]
    rfl

/-! ## The secondary section of a priority -/

variable {sections : OutputSections} {primary : Primary} {priority : Nat}
  {header : SectionHeader} {hs : List SectionHeader}

theorem keys_length (sections : OutputSections) : sections.keys.length = sections.length :=
  List.length_map _

theorem getOrCreate_of_mem (h : (primary, priority) ∈ sections.keys) (alignment : Alignment) :
    sections.getOrCreateInitFiniSecondary primary priority alignment =
      (sections.keys.idxOf (primary, priority),
        sections.modify (sections.keys.idxOf (primary, priority))
          (Secondary.bumpMinAlignment alignment)) := by
  have hindex : sections.keys.idxOf? (primary, priority) =
      some (sections.keys.idxOf (primary, priority)) := by
    rw [List.idxOf?_eq_some_iff]
    have hlt : sections.keys.idxOf (primary, priority) < sections.keys.length :=
      List.idxOf_lt_length_of_mem h
    refine ⟨hlt, List.getElem_idxOf hlt, ?_⟩
    intro j hj heq
    have hne := List.not_of_lt_findIdx hj
    rw [heq, beq_self_eq_true] at hne
    exact nomatch hne
  rw [getOrCreateInitFiniSecondary, hindex]

theorem getOrCreate_of_notMem (h : (primary, priority) ∉ sections.keys) (alignment : Alignment) :
    sections.getOrCreateInitFiniSecondary primary priority alignment =
      (sections.length, sections ++ [⟨primary, priority, alignment⟩]) := by
  have hindex : sections.keys.idxOf? (primary, priority) = none := List.idxOf?_eq_none_iff.mpr h
  rw [getOrCreateInitFiniSecondary, hindex]

theorem keys_modify (index : Nat) (alignment : Alignment) :
    keys (sections.modify index (Secondary.bumpMinAlignment alignment)) = sections.keys := by
  apply List.ext_getElem?
  intro i
  simp only [keys, List.getElem?_map, List.getElem?_modify]
  cases sections[i]? with
  | none => rfl
  | some sec => by_cases hi : index = i <;> simp [hi, Secondary.key, Secondary.bumpMinAlignment]

/-- The keys after filing a section: a new priority goes to the end. -/
def keysAfter (keys : List (Primary × Nat)) (header : SectionHeader) : List (Primary × Nat) :=
  match header.key with
  | none => keys
  | some key => if key ∈ keys then keys else keys ++ [key]

/-- The part of a section, given the keys of all secondary sections. -/
def partOf (keys : List (Primary × Nat)) (header : SectionHeader) : PartId :=
  match header.key with
  | none => ⟨.primary header.name.primary, header.alignment⟩
  | some key => ⟨.secondary (keys.idxOf key), header.alignment⟩

theorem filePart_none (h : header.key = none) :
    sections.filePart header =
      (some ⟨.primary header.name.primary, header.alignment⟩, sections) := by
  have hpriority : initFiniPriority header.name.bytes = none := Option.map_eq_none_iff.mp h
  rw [filePart, lookup_bytes, hpriority]

theorem filePart_some {key : Primary × Nat} (h : header.key = some key) :
    sections.filePart header =
      (some ⟨.secondary
          (sections.getOrCreateInitFiniSecondary key.1 key.2 header.alignment).1, header.alignment⟩,
        (sections.getOrCreateInitFiniSecondary key.1 key.2 header.alignment).2) := by
  obtain ⟨priority, hpriority, rfl⟩ := Option.map_eq_some_iff.mp h
  rw [filePart, lookup_bytes, hpriority]

theorem filePart_keys (sections : OutputSections) (header : SectionHeader) :
    (sections.filePart header).2.keys = keysAfter sections.keys header := by
  cases hkey : header.key with
  | none => simp only [filePart_none hkey, keysAfter, hkey]
  | some key =>
    simp only [filePart_some hkey, keysAfter, hkey]
    by_cases hmem : key ∈ sections.keys
    · rw [getOrCreate_of_mem hmem, if_pos hmem]
      exact keys_modify _ _
    · rw [getOrCreate_of_notMem hmem, if_neg hmem]
      exact List.map_append

theorem filePart_part (sections : OutputSections) (header : SectionHeader) :
    (sections.filePart header).1 = some (partOf (keysAfter sections.keys header) header) := by
  cases hkey : header.key with
  | none => simp only [filePart_none hkey, partOf, hkey]
  | some key =>
    simp only [filePart_some hkey, partOf, keysAfter, hkey]
    by_cases hmem : key ∈ sections.keys
    · rw [getOrCreate_of_mem hmem, if_pos hmem]
    · have hlast : (sections.keys ++ [key]).idxOf key = sections.length := by
        rw [List.idxOf_append_of_notMem hmem, List.idxOf_cons_self, keys_length, Nat.add_zero]
      rw [getOrCreate_of_notMem hmem, if_neg hmem, hlast]

theorem keysAfter_extends (keys : List (Primary × Nat)) (header : SectionHeader) :
    keys <+: keysAfter keys header := by
  unfold keysAfter
  split
  · exact List.prefix_refl keys
  · split
    · exact List.prefix_refl keys
    · exact List.prefix_append keys _

theorem mem_keysAfter {key : Primary × Nat} (keys : List (Primary × Nat))
    (h : header.key = some key) : key ∈ keysAfter keys header := by
  simp only [keysAfter, h]
  split
  · assumption
  · exact List.mem_append_right _ List.mem_cons_self

theorem foldl_keysAfter_extends (keys : List (Primary × Nat)) (hs : List SectionHeader) :
    keys <+: hs.foldl keysAfter keys := by
  induction hs generalizing keys with
  | nil => exact List.prefix_refl keys
  | cons header hs ih => exact (keysAfter_extends keys header).trans (ih _)

/-- A section keeps its part while others are filed. -/
theorem partOf_extends {keys keys' : List (Primary × Nat)} (h : keysAfter keys header <+: keys') :
    partOf (keysAfter keys header) header = partOf keys' header := by
  obtain ⟨more, rfl⟩ := h
  cases hkey : header.key with
  | none => simp only [partOf, hkey]
  | some key =>
    have hmem : key ∈ keysAfter keys header := mem_keysAfter keys hkey
    generalize keysAfter keys header = filed at hmem
    simp only [partOf, hkey, List.idxOf_append_of_mem hmem]

theorem applyInitFiniSecondaries_keys (sections : OutputSections) (hs : List SectionHeader) :
    (sections.applyInitFiniSecondaries hs).2.keys = hs.foldl keysAfter sections.keys := by
  induction hs generalizing sections with
  | nil => rfl
  | cons header hs ih =>
    rw [List.foldl_cons, ← filePart_keys]
    exact ih (sections.filePart header).2

theorem applyInitFiniSecondaries_parts (sections : OutputSections) (hs : List SectionHeader) :
    (sections.applyInitFiniSecondaries hs).1 =
      hs.map fun header => some (partOf (hs.foldl keysAfter sections.keys) header) := by
  induction hs generalizing sections with
  | nil => rfl
  | cons header hs ih =>
    have hpart := filePart_part sections header
    have hkeys := filePart_keys sections header
    rw [partOf_extends (foldl_keysAfter_extends _ hs), ← hkeys] at hpart
    rw [List.map_cons, List.foldl_cons, ← hkeys, ← hpart, ← ih]
    rfl

/-- The secondary sections have filed these input sections: there is one for each of their
priorities, aligned as the most aligned section of that priority. -/
structure Filed (sections : OutputSections) (hs : List SectionHeader) : Prop where
  nodup : sections.keys.Nodup
  complete : ∀ h ∈ hs, ∀ key, h.key = some key → key ∈ sections.keys
  covers : ∀ sec ∈ sections, ∀ h ∈ hs, h.key = some sec.key →
    h.alignment.exponent ≤ sec.minAlignment.exponent
  attained : ∀ sec ∈ sections, ∃ h ∈ hs, h.key = some sec.key ∧ h.alignment = sec.minAlignment

theorem filed_nil : Filed [] [] where
  nodup := List.nodup_nil
  complete := fun _ h => nomatch h
  covers := fun _ h => nomatch h
  attained := fun _ h => nomatch h

theorem Filed.append_none (h : Filed sections hs) (hkey : header.key = none) :
    Filed sections (hs ++ [header]) where
  nodup := h.nodup
  complete := by
    intro other hother key hkey'
    rcases List.mem_append.mp hother with hother | hother
    · exact h.complete other hother key hkey'
    · rw [List.mem_singleton.mp hother, hkey] at hkey'
      exact nomatch hkey'
  covers := by
    intro sec hsec other hother hkey'
    rcases List.mem_append.mp hother with hother | hother
    · exact h.covers sec hsec other hother hkey'
    · rw [List.mem_singleton.mp hother, hkey] at hkey'
      exact nomatch hkey'
  attained := by
    intro sec hsec
    obtain ⟨other, hother, hfound⟩ := h.attained sec hsec
    exact ⟨other, List.mem_append_left _ hother, hfound⟩

/-- What is modified is the section of the key, as no two have one key. -/
theorem mem_bumped (hnodup : sections.keys.Nodup) {key : Primary × Nat} {alignment : Alignment}
    {sec : Secondary} (hsec : sec ∈ sections.modify (sections.keys.idxOf key)
      (Secondary.bumpMinAlignment alignment)) :
    (∃ old ∈ sections, old.key = key ∧ sec = old.bumpMinAlignment alignment) ∨
      (sec ∈ sections ∧ sec.key ≠ key) := by
  obtain ⟨i, hi⟩ := List.mem_iff_getElem?.mp hsec
  rw [List.getElem?_modify] at hi
  obtain ⟨old, hold, hupdated⟩ := Option.map_eq_some_iff.mp hi
  have hget : sections.keys[i]? = some old.key := by
    rw [keys, List.getElem?_map, hold, Option.map_some]
  by_cases hindex : sections.keys.idxOf key = i
  · rw [if_pos hindex] at hupdated
    left
    refine ⟨old, List.mem_of_getElem? hold, ?_, hupdated.symm⟩
    obtain ⟨hlt, hkey⟩ := List.getElem?_eq_some_iff.mp hget
    subst hindex
    rw [← hkey, List.getElem_idxOf]
  · rw [if_neg hindex] at hupdated
    right
    obtain rfl : old = sec := hupdated
    refine ⟨List.mem_of_getElem? hold, ?_⟩
    rintro rfl
    apply hindex
    obtain ⟨hlt, hkey⟩ := List.getElem?_eq_some_iff.mp hget
    rw [← hkey, hnodup.idxOf_getElem]

theorem Filed.bump (h : Filed sections hs) {key : Primary × Nat} (hkey : header.key = some key)
    (hmem : key ∈ sections.keys) :
    Filed (sections.modify (sections.keys.idxOf key)
      (Secondary.bumpMinAlignment header.alignment)) (hs ++ [header]) where
  nodup := by
    rw [keys_modify]
    exact h.nodup
  complete := by
    intro other hother key' hkey'
    rw [keys_modify]
    rcases List.mem_append.mp hother with hother | hother
    · exact h.complete other hother key' hkey'
    · rw [List.mem_singleton.mp hother, hkey] at hkey'
      exact Option.some.inj hkey' ▸ hmem
  covers := by
    intro sec hsec other hother hkey'
    rcases mem_bumped h.nodup hsec with ⟨old, hold, hfound, rfl⟩ | ⟨hold, hne⟩
    · rcases List.mem_append.mp hother with hother | hother
      · exact (h.covers old hold other hother hkey').trans (Nat.le_max_left _ _)
      · rw [List.mem_singleton.mp hother]
        exact Nat.le_max_right _ _
    · rcases List.mem_append.mp hother with hother | hother
      · exact h.covers sec hold other hother hkey'
      · rw [List.mem_singleton.mp hother, hkey] at hkey'
        exact absurd (Option.some.inj hkey').symm hne
  attained := by
    intro sec hsec
    rcases mem_bumped h.nodup hsec with ⟨old, hold, hfound, rfl⟩ | ⟨hold, -⟩
    · obtain ⟨other, hother, hother', hattained⟩ := h.attained old hold
      rcases Nat.le_total header.alignment.exponent old.minAlignment.exponent with hle | hle
      · refine ⟨other, List.mem_append_left _ hother, hother', ?_⟩
        rw [hattained, Secondary.bumpMinAlignment, Alignment.max_of_le hle]
      · refine ⟨header, List.mem_append_right _ List.mem_cons_self, ?_, ?_⟩
        · rw [hkey, ← hfound]
          rfl
        · rw [Secondary.bumpMinAlignment, Alignment.max_of_ge hle]
    · obtain ⟨other, hother, hfound⟩ := h.attained sec hold
      exact ⟨other, List.mem_append_left _ hother, hfound⟩

theorem Filed.create (h : Filed sections hs) {key : Primary × Nat} (hkey : header.key = some key)
    (hmem : key ∉ sections.keys) :
    Filed (sections ++ [⟨key.1, key.2, header.alignment⟩]) (hs ++ [header]) where
  nodup := by
    rw [keys, List.map_append]
    exact List.Nodup.append h.nodup (List.nodup_singleton _)
      (List.disjoint_singleton.mpr hmem)
  complete := by
    intro other hother key' hkey'
    rw [keys, List.map_append]
    rcases List.mem_append.mp hother with hother | hother
    · exact List.mem_append_left _ (h.complete other hother key' hkey')
    · rw [List.mem_singleton.mp hother, hkey] at hkey'
      exact List.mem_append_right _ (List.mem_singleton.mpr (Option.some.inj hkey').symm)
  covers := by
    intro sec hsec other hother hkey'
    rcases List.mem_append.mp hsec with hsec | hsec
    · rcases List.mem_append.mp hother with hother | hother
      · exact h.covers sec hsec other hother hkey'
      · rw [List.mem_singleton.mp hother, hkey] at hkey'
        exact absurd (Option.some.inj hkey' ▸ List.mem_map_of_mem hsec) hmem
    · obtain rfl := List.mem_singleton.mp hsec
      rcases List.mem_append.mp hother with hother | hother
      · exact absurd (h.complete other hother key hkey') hmem
      · exact (List.mem_singleton.mp hother) ▸ Nat.le_refl _
  attained := by
    intro sec hsec
    rcases List.mem_append.mp hsec with hsec | hsec
    · obtain ⟨other, hother, hfound⟩ := h.attained sec hsec
      exact ⟨other, List.mem_append_left _ hother, hfound⟩
    · obtain rfl := List.mem_singleton.mp hsec
      exact ⟨header, List.mem_append_right _ List.mem_cons_self, hkey, rfl⟩

theorem Filed.filePart (h : Filed sections hs) (header : SectionHeader) :
    Filed (sections.filePart header).2 (hs ++ [header]) := by
  cases hkey : header.key with
  | none =>
    rw [filePart_none hkey]
    exact h.append_none hkey
  | some key =>
    rw [filePart_some hkey]
    by_cases hmem : key ∈ sections.keys
    · rw [getOrCreate_of_mem hmem]
      exact h.bump hkey hmem
    · rw [getOrCreate_of_notMem hmem]
      exact h.create hkey hmem

theorem Filed.applyInitFiniSecondaries (h : Filed sections hs) (rest : List SectionHeader) :
    Filed (sections.applyInitFiniSecondaries rest).2 (hs ++ rest) := by
  induction rest generalizing sections hs with
  | nil =>
    rw [List.append_nil]
    exact h
  | cons header rest ih =>
    have hrest := ih (h.filePart header)
    rw [List.append_assoc] at hrest
    exact hrest

end OutputSections

end JdxLinker.InitFini
