import JdxLinker.Riscv.AttributesRoundTrip

/-!
# Merged attributes

The merged list of any objects that were read has the size that its distinct extensions and greatest
numbers take. It comes back from the section that is written for it while that size fits into 32
bits, and version numbers come back where they have one digit.
-/

namespace JdxLinker.Riscv

variable {leb : Leb128}

/-! ### The size of the merge -/

/-- The names of the extensions in some attributes. -/
def extensionNames (attributes : List RiscVAttribute) : Finset Chars :=
  (((attributes.filterMap (·.arch?)).flatMap (·.map.entries)).map Prod.fst).toFinset

/-- What the attribute for the greatest of some numbers takes, with its tag. -/
def numberBytes (leb : Leb128) (numbers : List Nat) : Nat :=
  numbers.max?.elim 0 fun n => 1 + leb.unsignedLen n

/-- What merged attributes take: a header, every extension once with its versions and a separator, and
the greatest numbers. -/
def mergedBytes (leb : Leb128) (attributes : List RiscVAttribute) : Nat :=
  if attributes = [] then 0
  else 16
    + (if extensionNames attributes = ∅ then 0
      else 1 + ∑ name ∈ extensionNames attributes, ((Utf8.encode name).length + 4))
    + numberBytes leb (attributes.filterMap (·.stackAlign?))
    + (if attributes.filterMap (·.unalignedAccess?) = [] then 0 else 2)
    + numberBytes leb (attributes.filterMap (·.privilegedSpecMajor?))
    + numberBytes leb (attributes.filterMap (·.privilegedSpecMinor?))
    + numberBytes leb (attributes.filterMap (·.privilegedSpecRevision?))

/-! ### Merged extensions -/

theorem mergeComponent_printable {map : HashTable Chars (Nat × Nat)} {component : Chars × Nat × Nat}
    (hmap : ∀ entry ∈ map.entries, Printable entry) (hcomponent : Printable component) :
    ∀ entry ∈ (mergeComponent map component).entries, Printable entry := by
  intro entry hentry
  have hget : (mergeComponent map component).get? entry.1 = some entry.2 :=
    HashTable.mem_entries_iff.mp hentry
  rw [mergeComponent, HashTable.get?_update] at hget
  split at hget
  · rename_i hname
    cases hold : map.get? component.1 with
    | none =>
        rw [hold] at hget
        have heq : entry = component := Prod.ext hname (Option.some.inj hget).symm
        exact heq ▸ hcomponent
    | some version =>
        rw [hold] at hget
        have hversion : versionMax version component.2 = entry.2 := Option.some.inj hget
        have hprintable : Printable (component.1, version) :=
          hmap _ (HashTable.mem_entries_iff.mpr hold)
        unfold versionMax at hversion
        split at hversion
        · have heq : entry = (component.1, version) := Prod.ext hname hversion.symm
          exact heq ▸ hprintable
        · have heq : entry = component := Prod.ext hname hversion.symm
          exact heq ▸ hcomponent
  · exact hmap entry (HashTable.mem_entries_iff.mpr hget)

theorem foldl_mergeComponent_printable {components : List (Chars × Nat × Nat)}
    {map : HashTable Chars (Nat × Nat)} (hmap : ∀ entry ∈ map.entries, Printable entry)
    (hcomponents : ∀ component ∈ components, Printable component) :
    ∀ entry ∈ (components.foldl mergeComponent map).entries, Printable entry := by
  induction components generalizing map with
  | nil => exact hmap
  | cons component components ih =>
      exact ih (mergeComponent_printable hmap (hcomponents component List.mem_cons_self))
        fun c hc => hcomponents c (List.mem_cons_of_mem _ hc)

theorem mem_keys_foldl_mergeComponent {components : List (Chars × Nat × Nat)}
    {map : HashTable Chars (Nat × Nat)} {name : Chars} :
    name ∈ (components.foldl mergeComponent map).entries.map Prod.fst
      ↔ name ∈ map.entries.map Prod.fst ∨ name ∈ components.map Prod.fst := by
  induction components generalizing map with
  | nil => simp
  | cons component components ih =>
      rw [List.foldl_cons, ih, List.map_cons, List.mem_cons, mergeComponent, HashTable.update,
        HashTable.mem_keys_updateEntries, or_assoc, or_left_comm]

/-- The merged extensions are those of the attributes, each once. -/
theorem mergeArchs_names (attributes : List RiscVAttribute) :
    ((mergeArchs (attributes.filterMap (·.arch?))).entries.map Prod.fst).toFinset
      = extensionNames attributes := by
  refine Finset.ext fun name => ?_
  rw [List.mem_toFinset, mergeArchs, mem_keys_foldl_mergeComponent, extensionNames,
    List.mem_toFinset]
  simp [HashTable.empty]

theorem mergeArchs_printable {attributes : List RiscVAttribute}
    (h : ∀ a ∈ attributes, a.Printable) :
    ∀ entry ∈ (mergeArchs (attributes.filterMap (·.arch?))).entries, Printable entry := by
  refine foldl_mergeComponent_printable (by simp [HashTable.empty]) fun component hcomponent => ?_
  obtain ⟨isa, hisa, hentry⟩ := List.mem_flatMap.mp hcomponent
  obtain ⟨a, ha, harch⟩ := List.mem_filterMap.mp hisa
  cases a with
  | arch isa' =>
      obtain rfl := Option.some.inj harch
      exact (h _ ha).components component hentry
  | _ => cases harch

/-- The string of extensions, with one more separator. -/
theorem encode_attributeString_length {components : List (Chars × Nat × Nat)}
    (h : ∀ component ∈ components, Printable component) (hne : components ≠ []) :
    (Utf8.encode (['_'].intercalate (components.map componentString))).length + 1
      = (components.map fun component => (Utf8.encode component.1).length + 4).sum := by
  have hone : ∀ component : Chars × Nat × Nat, Printable component →
      (Utf8.encode (componentString component)).length = (Utf8.encode component.1).length + 3 := by
    intro component hcomponent
    have hdigit : ∀ n < 10, (Utf8.encode [n.digitChar]).length = 1 := by decide
    rw [hcomponent.componentString, Utf8.encode_append, List.length_append]
    have hsplit : [component.2.1.digitChar, 'p', component.2.2.digitChar]
        = [component.2.1.digitChar] ++ (['p'] ++ [component.2.2.digitChar]) := rfl
    rw [hsplit, Utf8.encode_append, Utf8.encode_append, List.length_append, List.length_append,
      hdigit _ hcomponent.major, hdigit _ hcomponent.minor]
    rfl
  induction components with
  | nil => exact absurd rfl hne
  | cons component components ih =>
      have hfirst := hone component (h component List.mem_cons_self)
      cases components with
      | nil =>
          simp only [List.map_cons, List.map_nil, List.intercalate_singleton, List.sum_cons,
            List.sum_nil]
          omega
      | cons next components =>
          have hrest := ih (fun c hc => h c (List.mem_cons_of_mem _ hc)) (List.cons_ne_nil _ _)
          have hseparator : (Utf8.encode ['_']).length = 1 := by decide
          rw [List.map_cons, List.map_cons, List.intercalate_cons_cons, List.map_cons, List.sum_cons,
            ← hrest, Utf8.encode_append, Utf8.encode_append, List.length_append, List.length_append,
            hfirst, hseparator, List.map_cons]
          omega

theorem mergeArchs_eq_nil {attributes : List RiscVAttribute} :
    (mergeArchs (attributes.filterMap (·.arch?))).entries = []
      ↔ extensionNames attributes = ∅ := by
  rw [← mergeArchs_names, List.toFinset_eq_empty_iff, List.map_eq_nil_iff]

theorem archBytes_eq (hleb : leb.Lawful) {attributes : List RiscVAttribute}
    (h : ∀ a ∈ attributes, a.Printable)
    (hne : (mergeArchs (attributes.filterMap (·.arch?))).entries ≠ []) :
    attributeSize leb (.arch ⟨mergeArchs (attributes.filterMap (·.arch?))⟩)
      = 1 + ∑ name ∈ extensionNames attributes, ((Utf8.encode name).length + 4) := by
  have htag := hleb.unsignedLen_small tagRiscvArch (by decide)
  have hstring := encode_attributeString_length (mergeArchs_printable h) hne
  have hnames := (mergeArchs (attributes.filterMap (·.arch?))).nodup
  rw [attributeSize, htag, RiscVArch.toAttributeString, ← mergeArchs_names,
    List.sum_toFinset _ hnames, List.map_map]
  simp only [Function.comp_def]
  omega

/-! ### The merged list -/

theorem max?_mem_lt {numbers : List Nat} {n bound : Nat} (h : numbers.max? = some n)
    (hall : ∀ m ∈ numbers, m < bound) : n < bound :=
  hall n (List.max?_eq_some_iff.mp h).1

theorem max?_perm {l l' : List Nat} (h : l.Perm l') : l.max? = l'.max? := by
  refine Option.ext fun n => ?_
  rw [List.max?_eq_some_iff, List.max?_eq_some_iff, h.mem_iff]
  simp only [h.mem_iff]

theorem mem_optional {α : Type} {o : Option α} {make : α → RiscVAttribute} {a : RiscVAttribute}
    (h : a ∈ (o.map make).toList) : ∃ n, o = some n ∧ a = make n := by
  rw [Option.mem_toList, Option.map_eq_some_iff] at h
  obtain ⟨n, hn, rfl⟩ := h
  exact ⟨n, hn, rfl⟩

/-- Merging keeps that attributes can be written. -/
theorem mergedAttributes_printable {attributes : List RiscVAttribute}
    (h : ∀ a ∈ attributes, a.Printable) : ∀ a ∈ mergedAttributes attributes, a.Printable := by
  have hnumbers : ∀ (number : RiscVAttribute → Option Nat),
      (∀ a n, number a = some n → a.Printable → n < 2 ^ 64) →
      ∀ n, (attributes.filterMap number).max? = some n → n < 2 ^ 64 := by
    intro number hnumber n hmax
    refine max?_mem_lt hmax fun m hm => ?_
    obtain ⟨a, ha, hm⟩ := List.mem_filterMap.mp hm
    exact hnumber a m hm (h a ha)
  intro a ha
  simp only [mergedAttributes, List.mem_append] at ha
  rcases ha with ((((ha | ha) | ha) | ha) | ha) | ha
  · split at ha
    · cases ha
    · rename_i hne
      obtain rfl := List.mem_singleton.mp ha
      exact ⟨hne, mergeArchs_printable h⟩
  · obtain ⟨n, hn, rfl⟩ := mem_optional ha
    refine hnumbers _ (fun a n heq hprintable => ?_) n hn
    cases a <;> cases heq
    exact hprintable
  · obtain ⟨access, -, rfl⟩ := mem_optional ha
    trivial
  · obtain ⟨n, hn, rfl⟩ := mem_optional ha
    refine hnumbers _ (fun a n heq hprintable => ?_) n hn
    cases a <;> cases heq
    exact hprintable
  · obtain ⟨n, hn, rfl⟩ := mem_optional ha
    refine hnumbers _ (fun a n heq hprintable => ?_) n hn
    cases a <;> cases heq
    exact hprintable
  · obtain ⟨n, hn, rfl⟩ := mem_optional ha
    refine hnumbers _ (fun a n heq hprintable => ?_) n hn
    cases a <;> cases heq
    exact hprintable

/-- Something is left of any attributes. -/
theorem mergedAttributes_eq_nil {attributes : List RiscVAttribute}
    (h : ∀ a ∈ attributes, a.Printable) : mergedAttributes attributes = [] ↔ attributes = [] := by
  constructor
  · intro hnil
    simp only [mergedAttributes, List.append_eq_nil_iff, Option.toList_eq_nil_iff,
      Option.map_eq_none_iff, List.max?_eq_none_iff] at hnil
    obtain ⟨⟨⟨⟨⟨harch, halign⟩, haccess⟩, hmajor⟩, hminor⟩, hrevision⟩ := hnil
    refine List.eq_nil_iff_forall_not_mem.mpr fun a ha => ?_
    cases a with
    | arch isa =>
        obtain ⟨component, hcomponent⟩ := List.exists_mem_of_ne_nil _ (h _ ha).nonempty
        have hentries : (mergeArchs (attributes.filterMap (·.arch?))).entries = [] := by
          by_contra hne
          rw [if_neg hne] at harch
          cases harch
        have hnames := mergeArchs_eq_nil.mp hentries
        have hmem : component.1 ∈ extensionNames attributes := by
          rw [extensionNames, List.mem_toFinset]
          exact List.mem_map_of_mem (List.mem_flatMap.mpr
            ⟨isa, List.mem_filterMap.mpr ⟨_, ha, rfl⟩, hcomponent⟩)
        rw [hnames] at hmem
        simp at hmem
    | stackAlign n =>
        have hmem : n ∈ attributes.filterMap (·.stackAlign?) := List.mem_filterMap.mpr ⟨_, ha, rfl⟩
        rw [halign] at hmem
        cases hmem
    | unalignedAccess access =>
        have hmem : access ∈ attributes.filterMap (·.unalignedAccess?) := List.mem_filterMap.mpr ⟨_, ha, rfl⟩
        rw [haccess] at hmem
        cases hmem
    | privilegedSpecMajor n =>
        have hmem : n ∈ attributes.filterMap (·.privilegedSpecMajor?) := List.mem_filterMap.mpr ⟨_, ha, rfl⟩
        rw [hmajor] at hmem
        cases hmem
    | privilegedSpecMinor n =>
        have hmem : n ∈ attributes.filterMap (·.privilegedSpecMinor?) := List.mem_filterMap.mpr ⟨_, ha, rfl⟩
        rw [hminor] at hmem
        cases hmem
    | privilegedSpecRevision n =>
        have hmem : n ∈ attributes.filterMap (·.privilegedSpecRevision?) := List.mem_filterMap.mpr ⟨_, ha, rfl⟩
        rw [hrevision] at hmem
        cases hmem
  · rintro rfl
    rfl

theorem sum_optional {α : Type} (o : Option α) (make : α → RiscVAttribute) :
    (((o.map make).toList).map (attributeSize leb)).sum = o.elim 0 fun n => attributeSize leb (make n) := by
  cases o <;> simp

/-- The size that is computed for merged attributes. -/
theorem sectionSize_mergedAttributes (hleb : leb.Lawful) {attributes : List RiscVAttribute}
    (h : ∀ a ∈ attributes, a.Printable) :
    riscvAttributesSectionSize leb (mergedAttributes attributes) = mergedBytes leb attributes := by
  have htag : ∀ tag < 128, leb.unsignedLen tag = 1 := hleb.unsignedLen_small
  have hnumber : ∀ (numbers : List Nat) (tag : Nat), tag < 128 →
      (numbers.max?.elim 0 fun n => leb.unsignedLen tag + leb.unsignedLen n)
        = numberBytes leb numbers := by
    intro numbers tag hlt
    rw [htag tag hlt]
    rfl
  have haccess : ((attributes.filterMap (·.unalignedAccess?)).max?.elim 0 fun access =>
      attributeSize leb (.unalignedAccess access))
        = if attributes.filterMap (·.unalignedAccess?) = [] then 0 else 2 := by
    cases hmax : (attributes.filterMap (·.unalignedAccess?)).max? with
    | none =>
        rw [if_pos (List.max?_eq_none_iff.mp hmax)]
        rfl
    | some access =>
        rw [if_neg fun hnil => by rw [hnil] at hmax; cases hmax]
        show leb.unsignedLen tagRiscvUnalignedAccess + 1 = 2
        rw [htag _ (by decide)]
  have harch : (((if (mergeArchs (attributes.filterMap (·.arch?))).entries = [] then []
      else [RiscVAttribute.arch ⟨mergeArchs (attributes.filterMap (·.arch?))⟩]).map
        (attributeSize leb)).sum)
      = if extensionNames attributes = ∅ then 0
        else 1 + ∑ name ∈ extensionNames attributes, ((Utf8.encode name).length + 4) := by
    by_cases hnil : (mergeArchs (attributes.filterMap (·.arch?))).entries = []
    · rw [if_pos hnil, if_pos (mergeArchs_eq_nil.mp hnil)]
      rfl
    · rw [if_neg hnil, if_neg fun hnames => hnil (mergeArchs_eq_nil.mpr hnames), List.map_singleton,
        List.sum_singleton, archBytes_eq hleb h hnil]
  rw [riscvAttributesSectionSize, mergedBytes]
  by_cases hempty : attributes = []
  · rw [if_pos ((mergedAttributes_eq_nil h).mpr hempty), if_pos hempty]
  · rw [if_neg fun hnil => hempty ((mergedAttributes_eq_nil h).mp hnil), if_neg hempty,
      vendor_length, htag _ (by decide)]
    simp only [mergedAttributes, List.map_append, List.sum_append, sum_optional, harch, haccess]
    simp only [attributeSize, hnumber _ _ (show tagRiscvStackAlign < 128 by decide),
      hnumber _ _ (show tagRiscvPrivSpec < 128 by decide),
      hnumber _ _ (show tagRiscvPrivSpecMinor < 128 by decide),
      hnumber _ _ (show tagRiscvPrivSpecRevision < 128 by decide)]
    omega

theorem mergedBytes_perm {attributes attributes' : List RiscVAttribute}
    (h : attributes.Perm attributes') : mergedBytes leb attributes = mergedBytes leb attributes' := by
  have hnumbers : ∀ number : RiscVAttribute → Option Nat,
      numberBytes leb (attributes.filterMap number) = numberBytes leb (attributes'.filterMap number) := by
    intro number
    rw [numberBytes, numberBytes, max?_perm (h.filterMap number)]
  have hnames : extensionNames attributes = extensionNames attributes' :=
    List.toFinset_eq_of_perm _ _ (((h.filterMap _).flatMap_right _).map _)
  have hnil : ∀ {α : Type} {l l' : List α}, l.Perm l' → (l = [] ↔ l' = []) := by
    intro α l l' hperm
    rw [← List.length_eq_zero_iff, ← List.length_eq_zero_iff, hperm.length_eq]
  simp only [mergedBytes, hnumbers, hnames, hnil h, hnil (h.filterMap (·.unalignedAccess?))]

/-! ### The section of the merge -/

theorem mergeRiscvAttributes_eq_ok {states : List (List RiscVAttribute)} {layout : RiscVAttributes}
    (h : mergeRiscvAttributes leb states = .ok layout) :
    ∃ attributes, attributes.Perm states.flatten
      ∧ layout.attributes = mergedAttributes attributes
      ∧ layout.sectionSize = riscvAttributesSectionSize leb (mergedAttributes attributes) := by
  obtain ⟨-, -, hmerged⟩ := Fallible.bind_eq_ok.mp h
  cases hmerged
  refine ⟨_, List.Perm.flatten ?_, rfl, rfl⟩
  exact (List.reverse_perm _).trans (List.mergeSort_perm _ _)

/-- A section is written when there are attributes. It has the size that was computed, its length
fields reach its end, and the attributes are read back from it. -/
def RoundTrips (leb : Leb128) (layout : RiscVAttributes) : Prop :=
  (layout.sectionSize = 0 ↔ layout.attributes = [])
    ∧ (layout.sectionSize ≠ 0 → ∀ buffer : List UInt8, buffer.length = layout.sectionSize →
      ∃ written, writeRiscvAttributes leb layout buffer = .ok written
        ∧ (riscvAttributesBytes leb layout).length = layout.sectionSize
        ∧ Delimits written
        ∧ processRiscvAttributes leb written = .ok layout.attributes)

theorem riscvAttributesSectionSize_pos {attributes : List RiscVAttribute} (hne : attributes ≠ []) :
    11 ≤ riscvAttributesSectionSize leb attributes := by
  rw [riscvAttributesSectionSize, if_neg hne, vendor_length]
  omega

/-- Printable attributes come back from their section exactly when the length fields can hold its
size. -/
theorem roundTrips_iff (hleb : leb.Lawful) {layout : RiscVAttributes}
    (hprintable : ∀ a ∈ layout.attributes, a.Printable)
    (hsize : layout.sectionSize = riscvAttributesSectionSize leb layout.attributes) :
    RoundTrips leb layout ↔ layout.sectionSize ≤ 2 ^ 32 := by
  by_cases hne : layout.attributes = []
  · have hzero : layout.sectionSize = 0 := by rw [hsize, hne]; rfl
    rw [RoundTrips, hzero]
    simp [hne]
  · have hlarge : 11 ≤ layout.sectionSize := by
      rw [hsize]
      exact riscvAttributesSectionSize_pos hne
    have hlength : (riscvAttributesBytes leb layout).length = layout.sectionSize :=
      (riscvAttributesBytes_length hleb hprintable hne).trans hsize.symm
    have hwrite : ∀ buffer : List UInt8, buffer.length = layout.sectionSize →
        writeRiscvAttributes leb layout buffer = .ok (riscvAttributesBytes leb layout) := by
      intro buffer hbuffer
      have hdrop : buffer.drop (riscvAttributesBytes leb layout).length = [] := by
        rw [List.drop_eq_nil_iff, hbuffer, hlength]
      rw [writeRiscvAttributes, if_neg (by omega), hdrop, List.append_nil]
    rw [← delimits_iff hleb hlength hlarge]
    constructor
    · intro htrips
      obtain ⟨written, hwritten, -, hdelimits, -⟩ := htrips.2 (by omega)
        (List.replicate layout.sectionSize 0) List.length_replicate
      rw [hwrite _ List.length_replicate] at hwritten
      cases hwritten
      exact hdelimits
    · intro hdelimits
      refine ⟨⟨fun hzero => by omega, fun hnil => absurd hnil hne⟩, fun _ buffer hbuffer => ?_⟩
      exact ⟨_, hwrite buffer hbuffer, hlength, hdelimits,
        processRiscvAttributes_bytes hleb hprintable⟩

/-- The merged attributes of any objects that are accepted come back from their section exactly while
they fit into 32 bits, and version numbers come back from an architecture string exactly when each
has one digit. -/
theorem riscv_attributes_hold_iff (hleb : leb.Lawful) :
    (∀ (contents : List (List UInt8)) (states : List (List RiscVAttribute))
        (layout : RiscVAttributes), contents.mapM (processRiscvAttributes leb) = .ok states →
        mergeRiscvAttributes leb states = .ok layout →
        (RoundTrips leb layout ↔ mergedBytes leb states.flatten ≤ 2 ^ 32))
      ∧ ∀ extensions : List Extension, extensions ≠ [] →
        (∀ extension ∈ extensions, extension.WellFormed) →
        (extensions.map Extension.name).Nodup →
        (KeepsVersions extensions ↔ ∀ extension ∈ extensions, extension.OneDigitEach) := by
  constructor
  · intro contents states layout hread hmerge
    obtain ⟨attributes, hperm, hlayout, hsize⟩ := mergeRiscvAttributes_eq_ok hmerge
    have hprintable : ∀ a ∈ attributes, a.Printable := by
      intro a ha
      obtain ⟨state, hstate, ha⟩ := List.mem_flatten.mp (hperm.mem_iff.mp ha)
      obtain ⟨content, -, hcontent⟩ := Fallible.mapM_mem hread hstate
      exact processRiscvAttributes_printable hleb hcontent a ha
    have hmerged : ∀ a ∈ layout.attributes, a.Printable := by
      rw [hlayout]
      exact mergedAttributes_printable hprintable
    rw [roundTrips_iff hleb hmerged (by rw [hsize, hlayout]), hsize,
      sectionSize_mergedAttributes hleb hprintable, mergedBytes_perm hperm]
  · intro extensions hne hwellFormed hnodup
    exact keepsVersions_iff hne hwellFormed hnodup

/-- The alignment of the stack, and one extension. -/
theorem riscv_attributes_hold_stack :
    RoundTrips uleb ⟨[.stackAlign 16], 18⟩
      ∧ KeepsVersions [⟨"rv64i".toList, "2".toList, "1".toList⟩] := by
  have hread : [[65, 17, 0, 0, 0, 114, 105, 115, 99, 118, 0, 1, 7, 0, 0, 0, 4, 16]].mapM
      (processRiscvAttributes uleb) = .ok [[.stackAlign 16]] := rfl
  have hsize : riscvAttributesSectionSize uleb [.stackAlign 16] = 18 := by
    have hlen := uleb_lawful.unsignedLen_small
    simp [riscvAttributesSectionSize, vendor_length, attributeSize, hlen, tagRiscvWholeFile,
      tagRiscvStackAlign]
  have hmerge : mergeRiscvAttributes uleb [[.stackAlign 16]] = .ok ⟨[.stackAlign 16], 18⟩ := by
    rw [mergeRiscvAttributes, List.mergeSort_singleton, ← hsize]
    rfl
  have hbytes : mergedBytes uleb [.stackAlign 16] = 18 := by
    have hprintable : ∀ a ∈ [RiscVAttribute.stackAlign 16], a.Printable := by
      intro a ha
      rw [List.mem_singleton.mp ha]
      show 16 < 2 ^ 64
      decide
    rw [← sectionSize_mergedAttributes uleb_lawful hprintable]
    exact hsize
  have hwellFormed : Extension.WellFormed ⟨"rv64i".toList, "2".toList, "1".toList⟩ :=
    ⟨by simp, by simp [Char.isDigit], by simp [Char.isDigit]⟩
  refine ⟨((riscv_attributes_hold_iff uleb_lawful).1 _ _ _ hread hmerge).mpr ?_, ?_⟩
  · show mergedBytes uleb [.stackAlign 16] ≤ 2 ^ 32
    rw [hbytes]
    decide
  · refine ((riscv_attributes_hold_iff uleb_lawful).2 _ (List.cons_ne_nil _ _) ?_ (by decide)).mpr ?_
    · simpa using hwellFormed
    · simp [Extension.OneDigitEach]

/-- A second digit of a minor version is taken for the separator, and a second digit of a major
version for a part of the name. -/
theorem two_digits_not_kept :
    ¬KeepsVersions [⟨"rv64i".toList, "2".toList, "10".toList⟩]
      ∧ parseArch "rv64i2p10".toList = .error (.error "Separator expected")
      ∧ ¬KeepsVersions [⟨"zicsr".toList, "12".toList, "0".toList⟩]
      ∧ parseComponent "zicsr12p0".toList = .ok ("zicsr1".toList, 2, 0) := by
  have hminor : parseArch "rv64i2p10".toList = .error (.error "Separator expected") := rfl
  have hmajor : parseComponent "zicsr12p0".toList = .ok ("zicsr1".toList, 2, 0) := rfl
  refine ⟨?_, hminor, ?_, hmajor⟩
  · intro h
    obtain ⟨arch, harch, -⟩ := h
    have heq : parseArch "rv64i2p10".toList = .ok arch := harch
    rw [hminor] at heq
    cases heq
  · intro h
    obtain ⟨arch, harch, hentries⟩ := h
    cases harch
    have hname := congrArg (List.map Prod.fst) hentries
    exact absurd hname (by decide)

end JdxLinker.Riscv
