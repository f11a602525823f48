import JdxLinker.Riscv.ArchString

/-!
# Attributes that come back

What is read from any object can be written again, merging keeps that, and what was written is read
as the same list. Both length fields reach the end of the section exactly when they can hold its
size.
-/

namespace JdxLinker.Riscv

variable {leb : Leb128}

/-! ### Pieces of the section -/

theorem readU32_leBytes (n : Nat) (rest : List UInt8) :
    readU32 (Bytes.leBytes 4 n ++ rest) = .ok (n % 2 ^ 32, rest) := by
  have hlength : (Bytes.leBytes 4 n).length = 4 := Bytes.leBytes_length 4 n
  rw [readU32, if_neg (by rw [List.length_append, hlength]; omega), List.take_left' hlength,
    List.drop_left' hlength, Bytes.readLe_leBytes]
  rfl

theorem findIdx?_zero {bytes : List UInt8} (rest : List UInt8) (h : 0 ∉ bytes) :
    (bytes ++ 0 :: rest).findIdx? (· == 0) = some bytes.length := by
  have hnone : bytes.findIdx? (· == 0) = none := by
    rw [List.findIdx?_eq_none_iff]
    intro byte hbyte
    simpa using fun heq : byte = 0 => h (heq ▸ hbyte)
  rw [List.findIdx?_append, hnone]
  simp [List.findIdx?_cons]

theorem readString_encode {s : Chars} (rest : List UInt8) (h : Char.ofNat 0 ∉ s) :
    readString (Utf8.encode s ++ 0 :: rest) = .ok (s, rest) := by
  have hdrop : (Utf8.encode s ++ 0 :: rest).drop ((Utf8.encode s).length + 1) = rest := by
    rw [← List.drop_drop, List.drop_left]
    rfl
  rw [readString, findIdx?_zero rest (Utf8.zero_notMem_encode h)]
  simp only [List.take_left, hdrop, Utf8.fromUtf8Lossy_encode, String.toList_ofList]

/-- What is read as a string has no null character. -/
theorem null_notMem_readString {content rest : List UInt8} {s : Chars}
    (h : readString content = .ok (s, rest)) : Char.ofNat 0 ∉ s := by
  unfold readString at h
  split at h
  · cases h
  · rename_i i hi
    cases h
    rw [Utf8.fromUtf8Lossy, String.toList_ofList]
    refine Utf8.null_notMem_lossyChars fun hmem => ?_
    obtain ⟨k, hk, hzero⟩ := List.mem_take_iff_getElem.mp hmem
    have hbefore := (List.findIdx?_eq_some_iff_getElem.mp hi).2.2 k (by omega)
    simp [hzero] at hbefore

theorem readUleb128_write (hleb : leb.Lawful) {n : Nat} (hn : n < 2 ^ 64) (rest : List UInt8)
    (message : String) :
    inContext message (readUleb128 leb (leb.write n ++ rest)) = .ok (n, rest) := by
  rw [readUleb128, hleb.read_write n hn rest]
  rfl

/-! ### One attribute -/

/-- An attribute that comes back from its bytes. -/
def RiscVAttribute.Printable : RiscVAttribute → Prop
  | .arch isa => isa.Printable
  | .unalignedAccess _ => True
  | .stackAlign n | .privilegedSpecMajor n | .privilegedSpecMinor n | .privilegedSpecRevision n =>
      n < 2 ^ 64

theorem readNumber_write (hleb : leb.Lawful) {n : Nat} (hn : n < 2 ^ 64) (message : String)
    (make : Nat → RiscVAttribute) (rest : List UInt8) :
    readNumber leb message make (leb.write n ++ rest) = .ok (make n, rest) := by
  rw [readNumber, readUleb128_write hleb hn, Fallible.bind_ok]
  rfl

/-- What is written for an attribute is read as the attribute. -/
theorem readAttribute_write (hleb : leb.Lawful) {a : RiscVAttribute} (h : a.Printable)
    (rest : List UInt8) : readAttribute leb (writeAttribute leb a ++ rest) = .ok (a, rest) := by
  have hread : ∀ tag < 2 ^ 64, ∀ bytes, readAttribute leb (leb.write tag ++ bytes ++ rest)
      = readTagged leb tag (bytes ++ rest) := by
    intro tag htag bytes
    rw [readAttribute, List.append_assoc, readUleb128_write hleb htag, Fallible.bind_ok]
  cases a with
  | stackAlign n =>
      exact (hread _ (by decide) _).trans (readNumber_write hleb h _ _ rest)
  | arch isa =>
      refine (hread _ (by decide) _).trans ?_
      show readArch (Utf8.encode isa.toAttributeString ++ [0] ++ rest) = _
      rw [List.append_assoc, List.singleton_append, readArch, readString_encode rest h.null_notMem]
      show (parseArch isa.toAttributeString >>= fun arch => _) = _
      rw [h.parseArch, Fallible.bind_ok]
      rfl
  | unalignedAccess access =>
      refine (hread _ (by decide) _).trans ?_
      have hnumber : (if access then 1 else 0) < 2 ^ 64 := by split <;> decide
      show readNumber leb "Cannot read unaligned access" (fun n => .unalignedAccess (0 < n)) _ = _
      rw [readNumber_write hleb hnumber]
      cases access <;> rfl
  | privilegedSpecMajor n =>
      exact (hread _ (by decide) _).trans (readNumber_write hleb h _ _ rest)
  | privilegedSpecMinor n =>
      exact (hread _ (by decide) _).trans (readNumber_write hleb h _ _ rest)
  | privilegedSpecRevision n =>
      exact (hread _ (by decide) _).trans (readNumber_write hleb h _ _ rest)

theorem writeAttribute_length (hleb : leb.Lawful) {a : RiscVAttribute} (h : a.Printable) :
    (writeAttribute leb a).length = attributeSize leb a := by
  cases a with
  | arch isa =>
      simp only [writeAttribute, attributeSize, List.length_append, List.length_singleton,
        hleb.write_length tagRiscvArch (by decide)]
      omega
  | unalignedAccess access =>
      have hnumber : (if access then 1 else 0) < 128 := by split <;> decide
      rw [writeAttribute, attributeSize, List.length_append,
        hleb.write_length tagRiscvUnalignedAccess (by decide), hleb.write_length _ (by omega),
        hleb.unsignedLen_small _ hnumber]
  | stackAlign n | privilegedSpecMajor n | privilegedSpecMinor n | privilegedSpecRevision n =>
      simp only [writeAttribute, attributeSize, List.length_append, hleb.write_length n h]
      rw [hleb.write_length _ (by decide)]

theorem writeAttribute_ne_nil (hleb : leb.Lawful) {a : RiscVAttribute} (h : a.Printable) :
    writeAttribute leb a ≠ [] := by
  intro hnil
  have hread := readAttribute_write hleb h []
  have htag := hleb.read_write 0 (by decide) []
  have hshort := (hleb.read_ok _ _ _ htag).2
  rw [hnil, List.append_nil, readAttribute] at hread
  obtain ⟨⟨tag, rest⟩, htag', -⟩ := Fallible.bind_eq_ok.mp hread
  cases hempty : leb.read [] with
  | error failure =>
      rw [readUleb128, hempty] at htag'
      cases failure <;> cases htag'
  | ok result =>
      have hlt := (hleb.read_ok [] result.1 result.2 hempty).2
      exact absurd hlt (Nat.not_lt_zero _)

/-! ### The whole section -/

theorem readAttributes_write (hleb : leb.Lawful) {attributes : List RiscVAttribute} {fuel : Nat}
    (h : ∀ a ∈ attributes, a.Printable)
    (hfuel : (attributes.flatMap (writeAttribute leb)).length ≤ fuel) :
    readAttributes leb fuel (attributes.flatMap (writeAttribute leb)) = .ok attributes := by
  induction attributes generalizing fuel with
  | nil => cases fuel <;> rfl
  | cons a attributes ih =>
      have ha := h a List.mem_cons_self
      have hne := writeAttribute_ne_nil hleb ha
      rw [List.flatMap_cons, List.length_append] at hfuel
      have hpos := List.length_pos_of_ne_nil hne
      obtain ⟨fuel, rfl⟩ : ∃ n, fuel = n + 1 := ⟨fuel - 1, by omega⟩
      have hrest := @ih fuel (fun b hb => h b (List.mem_cons_of_mem _ hb)) (by omega)
      have hread := readAttribute_write hleb ha (attributes.flatMap (writeAttribute leb))
      obtain ⟨byte, bytes, hbytes⟩ := List.exists_cons_of_ne_nil hne
      rw [List.flatMap_cons, hbytes, List.cons_append, readAttributes, ← List.cons_append, ← hbytes,
        hread, Fallible.bind_ok]
      show (readAttributes leb fuel _ >>= fun rest => _) = _
      rw [hrest, Fallible.bind_ok]
      rfl

/-- The header is read, and its length fields are not used. -/
theorem processRiscvAttributes_header (hleb : leb.Lawful) (n m : Nat) (body : List UInt8) :
    processRiscvAttributes leb ('A'.toUInt8 :: (Bytes.leBytes 4 n
        ++ (Utf8.encode riscvAttributeVendorName ++ 0 :: (leb.write tagRiscvWholeFile
          ++ (Bytes.leBytes 4 m ++ body)))))
      = readAttributes leb body.length body := by
  have hvendor : Char.ofNat 0 ∉ riscvAttributeVendorName := by decide
  have hcontext : ∀ {α : Type} (message : String) (a : α),
      inContext message (.ok a) = .ok a := fun _ _ => rfl
  simp only [processRiscvAttributes, List.head?_cons, List.drop_succ_cons, List.drop_zero,
    Fallible.ensure, if_true, Fallible.bind_ok, readU32_leBytes, readString_encode _ hvendor,
    hcontext, readUleb128_write hleb (show tagRiscvWholeFile < 2 ^ 64 by decide)]

theorem processRiscvAttributes_bytes (hleb : leb.Lawful) {layout : RiscVAttributes}
    (h : ∀ a ∈ layout.attributes, a.Printable) :
    processRiscvAttributes leb (riscvAttributesBytes leb layout) = .ok layout.attributes := by
  simp only [riscvAttributesBytes, List.append_assoc, List.cons_append, List.nil_append]
  rw [processRiscvAttributes_header hleb]
  exact readAttributes_write hleb h (Nat.le_refl _)

theorem riscvAttributesBytes_length (hleb : leb.Lawful) {layout : RiscVAttributes}
    (h : ∀ a ∈ layout.attributes, a.Printable) (hne : layout.attributes ≠ []) :
    (riscvAttributesBytes leb layout).length
      = riscvAttributesSectionSize leb layout.attributes := by
  have hattributes : (layout.attributes.flatMap (writeAttribute leb)).length
      = (layout.attributes.map (attributeSize leb)).sum := by
    rw [List.length_flatMap]
    exact congrArg List.sum (List.map_congr_left fun a ha => writeAttribute_length hleb (h a ha))
  have hwhole := hleb.write_length tagRiscvWholeFile (by decide)
  rw [riscvAttributesSectionSize, if_neg hne]
  simp only [riscvAttributesBytes, List.length_append, List.length_singleton,
    Bytes.leBytes_length, hwhole, hattributes]
  omega

/-! ### The length fields -/

/-- The two length fields reach from where they start to the end of the section. The second one
starts with the tag of the whole file, after the vendor's name. -/
def Delimits (section_ : List UInt8) : Prop :=
  1 + Bytes.readLe (Bytes.slice section_ 1 4) = section_.length
    ∧ 11 + Bytes.readLe (Bytes.slice section_ 12 4) = section_.length

theorem slice_append {before bytes after : List UInt8} {offset len : Nat}
    (hbefore : before.length = offset) (hbytes : bytes.length = len) :
    Bytes.slice (before ++ (bytes ++ after)) offset len = bytes := by
  rw [Bytes.slice, List.drop_left' hbefore, List.take_left' hbytes]

theorem vendor_length : (Utf8.encode riscvAttributeVendorName).length = 5 := by decide

theorem riscvAttributesBytes_fields (hleb : leb.Lawful) (layout : RiscVAttributes) :
    Bytes.readLe (Bytes.slice (riscvAttributesBytes leb layout) 1 4)
        = wrappingSub (layout.sectionSize % 2 ^ 32) 1
      ∧ Bytes.readLe (Bytes.slice (riscvAttributesBytes leb layout) 12 4)
        = wrappingSub (layout.sectionSize % 2 ^ 32) 11 := by
  have hlt : ∀ a b, wrappingSub a b < 256 ^ 4 := fun a b => Nat.mod_lt _ (by decide)
  have hwhole : (leb.write tagRiscvWholeFile).length = 1 := by
    rw [hleb.write_length _ (by decide), hleb.unsignedLen_small _ (by decide)]
  have hvendor := vendor_length
  constructor
  · have hslice : Bytes.slice (riscvAttributesBytes leb layout) 1 4
        = Bytes.leBytes 4 (wrappingSub (layout.sectionSize % 2 ^ 32) 1) := by
      simp only [riscvAttributesBytes, List.append_assoc]
      exact slice_append rfl (Bytes.leBytes_length 4 _)
    rw [hslice, Bytes.readLe_leBytes_of_lt (hlt _ _)]
  · have hslice : Bytes.slice (riscvAttributesBytes leb layout) 12 4
        = Bytes.leBytes 4 (wrappingSub (layout.sectionSize % 2 ^ 32) 11) := by
      simp only [riscvAttributesBytes, hvendor]
      rw [List.append_assoc]
      refine slice_append ?_ (Bytes.leBytes_length 4 _)
      simp only [List.length_append, List.length_singleton, Bytes.leBytes_length, hvendor, hwhole]
    rw [hslice, Bytes.readLe_leBytes_of_lt (hlt _ _)]

/-- The fields are right exactly when they can hold what they should. -/
theorem delimits_iff (hleb : leb.Lawful) {layout : RiscVAttributes}
    (hlength : (riscvAttributesBytes leb layout).length = layout.sectionSize)
    (hlarge : 11 ≤ layout.sectionSize) :
    Delimits (riscvAttributesBytes leb layout) ↔ layout.sectionSize ≤ 2 ^ 32 := by
  obtain ⟨hfirst, hsecond⟩ := riscvAttributesBytes_fields hleb layout
  rw [Delimits, hfirst, hsecond, hlength, wrappingSub, wrappingSub]
  omega

/-! ### What is read -/

theorem readUleb128_eq_ok (hleb : leb.Lawful) {message : String} {content rest : List UInt8} {n : Nat}
    (h : inContext message (readUleb128 leb content) = .ok (n, rest)) :
    n < 2 ^ 64 ∧ rest.length < content.length := by
  rw [readUleb128] at h
  cases hread : leb.read content with
  | error failure =>
      rw [hread] at h
      cases failure <;> cases h
  | ok result =>
      rw [hread] at h
      cases h
      exact hleb.read_ok _ _ _ hread

theorem readNumber_eq_ok (hleb : leb.Lawful) {message : String} {make : Nat → RiscVAttribute}
    {content rest : List UInt8} {a : RiscVAttribute}
    (h : readNumber leb message make content = .ok (a, rest)) :
    ∃ n < 2 ^ 64, a = make n := by
  obtain ⟨⟨n, content'⟩, hread, hmake⟩ := Fallible.bind_eq_ok.mp h
  cases hmake
  exact ⟨n, (readUleb128_eq_ok hleb hread).1, rfl⟩

theorem readArch_printable {content rest : List UInt8} {a : RiscVAttribute}
    (h : readArch content = .ok (a, rest)) : a.Printable := by
  obtain ⟨⟨s, content'⟩, hread, hparse⟩ := Fallible.bind_eq_ok.mp h
  obtain ⟨isa, hisa, hmake⟩ := Fallible.bind_eq_ok.mp hparse
  cases hmake
  refine parseArch_printable ?_ hisa
  cases hstring : readString content with
  | error failure =>
      rw [hstring] at hread
      cases failure <;> cases hread
  | ok result =>
      rw [hstring] at hread
      cases hread
      exact null_notMem_readString hstring

/-- Every attribute that is read can be written. -/
theorem readTagged_printable (hleb : leb.Lawful) {tag : Nat} {content rest : List UInt8}
    {a : RiscVAttribute} (h : readTagged leb tag content = .ok (a, rest)) : a.Printable := by
  have hrefuse : ∀ context message, refuse leb context message content ≠ .ok (a, rest) := by
    intro context message h
    obtain ⟨-, -, h⟩ := Fallible.bind_eq_ok.mp h
    cases h
  unfold readTagged at h
  split_ifs at h
  · obtain ⟨n, hn, rfl⟩ := readNumber_eq_ok hleb h
    exact hn
  · exact readArch_printable h
  · obtain ⟨n, -, rfl⟩ := readNumber_eq_ok hleb h
    trivial
  · obtain ⟨n, hn, rfl⟩ := readNumber_eq_ok hleb h
    exact hn
  · obtain ⟨n, hn, rfl⟩ := readNumber_eq_ok hleb h
    exact hn
  · obtain ⟨n, hn, rfl⟩ := readNumber_eq_ok hleb h
    exact hn
  · exact absurd h (hrefuse _ _)
  · exact absurd h (hrefuse _ _)

theorem readAttributes_printable (hleb : leb.Lawful) {fuel : Nat} {content : List UInt8}
    {attributes : List RiscVAttribute} (h : readAttributes leb fuel content = .ok attributes) :
    ∀ a ∈ attributes, a.Printable := by
  induction fuel generalizing content attributes with
  | zero =>
      cases content with
      | nil =>
          cases h
          simp
      | cons byte content => cases h
  | succ fuel ih =>
      cases content with
      | nil =>
          cases h
          simp
      | cons byte content =>
          obtain ⟨⟨first, content'⟩, hfirst, hothers⟩ := Fallible.bind_eq_ok.mp h
          obtain ⟨rest, hrest, hattributes⟩ := Fallible.bind_eq_ok.mp hothers
          obtain ⟨⟨tag, content''⟩, -, htagged⟩ := Fallible.bind_eq_ok.mp hfirst
          cases hattributes
          intro a ha
          rcases List.mem_cons.mp ha with rfl | ha
          · exact readTagged_printable hleb htagged
          · exact ih hrest a ha

theorem processRiscvAttributes_printable (hleb : leb.Lawful) {content : List UInt8}
    {attributes : List RiscVAttribute}
    (h : processRiscvAttributes leb content = .ok attributes) :
    ∀ a ∈ attributes, a.Printable := by
  obtain ⟨-, -, hsize⟩ := Fallible.bind_eq_ok.mp h
  obtain ⟨⟨_, content₁⟩, -, hvendor⟩ := Fallible.bind_eq_ok.mp hsize
  obtain ⟨⟨vendor, content₂⟩, -, hcheck⟩ := Fallible.bind_eq_ok.mp hvendor
  obtain ⟨-, -, htag⟩ := Fallible.bind_eq_ok.mp hcheck
  obtain ⟨⟨tag, content₃⟩, -, hwhole⟩ := Fallible.bind_eq_ok.mp htag
  obtain ⟨-, -, hsize'⟩ := Fallible.bind_eq_ok.mp hwhole
  obtain ⟨⟨_, content₄⟩, -, hattributes⟩ := Fallible.bind_eq_ok.mp hsize'
  exact readAttributes_printable hleb hattributes

/-! ### Fuel -/

theorem readString_length {content rest : List UInt8} {s : Chars}
    (h : readString content = .ok (s, rest)) : rest.length ≤ content.length := by
  unfold readString at h
  split at h
  · cases h
  · cases h
    rw [List.length_drop]
    omega

theorem readTagged_length (hleb : leb.Lawful) {tag : Nat} {content rest : List UInt8}
    {a : RiscVAttribute} (h : readTagged leb tag content = .ok (a, rest)) :
    rest.length ≤ content.length := by
  have hnumber : ∀ message make, readNumber leb message make content = .ok (a, rest) →
      rest.length ≤ content.length := by
    intro message make h
    obtain ⟨⟨n, content'⟩, hread, hmake⟩ := Fallible.bind_eq_ok.mp h
    cases hmake
    exact (readUleb128_eq_ok hleb hread).2.le
  have hrefuse : ∀ context message, refuse leb context message content ≠ .ok (a, rest) := by
    intro context message h
    obtain ⟨-, -, h⟩ := Fallible.bind_eq_ok.mp h
    cases h
  unfold readTagged at h
  split_ifs at h
  · exact hnumber _ _ h
  · obtain ⟨⟨s, content'⟩, hread, hparse⟩ := Fallible.bind_eq_ok.mp h
    obtain ⟨isa, -, hmake⟩ := Fallible.bind_eq_ok.mp hparse
    cases hmake
    cases hstring : readString content with
    | error failure =>
        rw [hstring] at hread
        cases failure <;> cases hread
    | ok result =>
        rw [hstring] at hread
        cases hread
        exact readString_length hstring
  · exact hnumber _ _ h
  · exact hnumber _ _ h
  · exact hnumber _ _ h
  · exact hnumber _ _ h
  · exact absurd h (hrefuse _ _)
  · exact absurd h (hrefuse _ _)

/-- Every attribute takes a byte, so more fuel than the content's length changes nothing. -/
theorem readAttributes_fuel (hleb : leb.Lawful) {fuel : Nat} {content : List UInt8}
    (h : content.length ≤ fuel) : readAttributes leb fuel content
      = readAttributes leb content.length content := by
  induction hlength : content.length using Nat.strong_induction_on generalizing content fuel with
  | _ n ih =>
      cases content with
      | nil =>
          subst hlength
          cases fuel <;> rfl
      | cons byte content =>
          subst hlength
          obtain ⟨fuel, rfl⟩ : ∃ m, fuel = m + 1 := ⟨fuel - 1, by simp at h; omega⟩
          rw [List.length_cons] at h
          show (readAttribute leb (byte :: content) >>= fun result => readAttributes leb fuel result.2
              >>= fun attributes => pure (result.1 :: attributes))
            = (readAttribute leb (byte :: content) >>= fun result =>
              readAttributes leb content.length result.2
                >>= fun attributes => pure (result.1 :: attributes))
          cases hfirst : readAttribute leb (byte :: content) with
          | error failure => rfl
          | ok result =>
              obtain ⟨⟨tag, content'⟩, htag, htagged⟩ := Fallible.bind_eq_ok.mp hfirst
              have hshort := (readUleb128_eq_ok hleb htag).2
              have hrest := readTagged_length hleb htagged
              rw [List.length_cons] at hshort
              rw [Fallible.bind_ok, Fallible.bind_ok,
                @ih result.2.length (by simp; omega) fuel result.2 (by omega) rfl,
                @ih result.2.length (by simp; omega) content.length result.2 (by omega) rfl]

end JdxLinker.Riscv
