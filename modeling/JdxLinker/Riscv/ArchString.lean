import JdxLinker.Riscv.Attributes

/-!
# Architecture strings

An architecture string lists extensions with two version numbers each. It is read backwards with one
character for each number, so it is read right exactly when every number has one digit.
-/

namespace JdxLinker.Riscv

/-! ### One extension -/

theorem parseDigit_eq_ok {c : Char} {n : Nat} :
    parseDigit c = .ok n ↔ c.isDigit = true ∧ n = c.toNat - '0'.toNat := by
  unfold parseDigit
  split
  · rename_i h
    simp [h, eq_comm]
  · rename_i h
    simp [h]

/-- What is accepted as an extension, and what is made of it. -/
theorem parseComponent_eq_ok {part : Chars} {component : Chars × Nat × Nat} :
    parseComponent part = .ok component ↔ ∃ major minor : Char,
      part = component.1 ++ [major, 'p', minor] ∧ major.isDigit = true ∧ minor.isDigit = true
        ∧ component.2 = (major.toNat - '0'.toNat, minor.toNat - '0'.toNat) := by
  constructor
  · intro h
    unfold parseComponent at h
    split at h
    · cases h
    · cases h
    · rename_i minor p rest hpart
      obtain ⟨_, hp, hrest⟩ := Fallible.bind_eq_ok.mp h
      obtain rfl := Fallible.ensure_eq_ok.mp hp
      cases rest with
      | nil => cases hrest
      | cons major name =>
          obtain ⟨m, hm, hnumbers⟩ := Fallible.bind_eq_ok.mp hrest
          obtain ⟨n, hn, hcomponent⟩ := Fallible.bind_eq_ok.mp hnumbers
          obtain ⟨hmajor, rfl⟩ := parseDigit_eq_ok.mp hm
          obtain ⟨hminor, rfl⟩ := parseDigit_eq_ok.mp hn
          cases hcomponent
          refine ⟨major, minor, ?_, hmajor, hminor, rfl⟩
          rw [← List.reverse_reverse part, hpart]
          simp
  · rintro ⟨major, minor, rfl, hmajor, hminor, hversion⟩
    have hreverse : (component.1 ++ [major, 'p', minor]).reverse
        = minor :: 'p' :: major :: component.1.reverse := by simp
    rw [parseComponent, hreverse]
    show ((Fallible.ensure ('p' = 'p') "Separator expected") >>= fun _ => _) = _
    rw [Fallible.ensure_pos _ rfl, Fallible.bind_ok]
    show (parseDigit major >>= fun _ => parseDigit minor >>= fun _ => _) = _
    rw [parseDigit_eq_ok.mpr ⟨hmajor, rfl⟩, Fallible.bind_ok, parseDigit_eq_ok.mpr ⟨hminor, rfl⟩,
      Fallible.bind_ok, ← hversion, List.reverse_reverse]
    rfl

/-! ### All extensions -/

theorem foldlM_insertComponent {parts : List Chars} {components : List (Chars × Nat × Nat)}
    (h : List.Forall₂ (fun part component => parseComponent part = .ok component) parts components)
    (map : HashTable Chars (Nat × Nat)) :
    parts.foldlM insertComponent map
      = .ok (components.foldl (fun map c => map.update c.1 fun _ => c.2) map) := by
  induction h generalizing map with
  | nil => rfl
  | cons hpart _ ih =>
      rw [List.foldlM_cons, List.foldl_cons, ← ih, insertComponent, hpart]
      rfl

theorem forall₂_of_foldlM {parts : List Chars} {map map' : HashTable Chars (Nat × Nat)}
    (h : parts.foldlM insertComponent map = .ok map') :
    ∃ components, List.Forall₂ (fun part component => parseComponent part = .ok component)
        parts components
      ∧ map' = components.foldl (fun map c => map.update c.1 fun _ => c.2) map := by
  induction parts generalizing map with
  | nil =>
      cases h
      exact ⟨[], .nil, rfl⟩
  | cons part parts ih =>
      rw [List.foldlM_cons] at h
      obtain ⟨next, hnext, hrest⟩ := Fallible.bind_eq_ok.mp h
      obtain ⟨component, hpart, hinsert⟩ := Fallible.bind_eq_ok.mp hnext
      cases hinsert
      obtain ⟨components, hall, rfl⟩ := ih hrest
      exact ⟨component :: components, .cons hpart hall, rfl⟩

/-- Extensions with different names are kept as they came. -/
theorem entries_foldl_update {components : List (Chars × Nat × Nat)}
    {map : HashTable Chars (Nat × Nat)} (hnodup : (components.map Prod.fst).Nodup)
    (hnew : ∀ c ∈ components, c.1 ∉ map.entries.map Prod.fst) :
    (components.foldl (fun map c => map.update c.1 fun _ => c.2) map).entries
      = map.entries ++ components := by
  induction components generalizing map with
  | nil => simp
  | cons c components ih =>
      rw [List.map_cons, List.nodup_cons] at hnodup
      have hentries : (map.update c.1 fun _ => c.2).entries = map.entries ++ [c] :=
        HashTable.updateEntries_of_notMem _ (hnew c List.mem_cons_self)
      rw [List.foldl_cons, ih hnodup.2, hentries, List.append_assoc, List.singleton_append]
      intro d hd hmem
      rw [hentries, List.map_append, List.mem_append] at hmem
      rcases hmem with hmem | hmem
      · exact hnew d (List.mem_cons_of_mem _ hd) hmem
      · have heq : d.1 = c.1 := by simpa using hmem
        exact hnodup.1 (heq ▸ List.mem_map_of_mem hd)

/-- No table has more entries than extensions came, and one that has as many has all of them. -/
theorem entries_of_length {components : List (Chars × Nat × Nat)}
    {map : HashTable Chars (Nat × Nat)} :
    (components.foldl (fun map c => map.update c.1 fun _ => c.2) map).entries.length
        ≤ map.entries.length + components.length
      ∧ ((components.foldl (fun map c => map.update c.1 fun _ => c.2) map).entries.length
          = map.entries.length + components.length →
        (components.foldl (fun map c => map.update c.1 fun _ => c.2) map).entries
          = map.entries ++ components) := by
  induction components generalizing map with
  | nil => simp
  | cons c components ih =>
      obtain ⟨hle, heq⟩ := @ih (map.update c.1 fun _ => c.2)
      rw [List.foldl_cons, List.length_cons]
      by_cases hmem : c.1 ∈ map.entries.map Prod.fst
      · have hlength : (map.update c.1 fun _ => c.2).entries.length = map.entries.length :=
          HashTable.length_updateEntries _ hmem
        exact ⟨by omega, fun hall => by omega⟩
      · have hentries : (map.update c.1 fun _ => c.2).entries = map.entries ++ [c] :=
          HashTable.updateEntries_of_notMem _ hmem
        have hlength := congrArg List.length hentries
        rw [List.length_append, List.length_singleton] at hlength
        refine ⟨by omega, fun hall => ?_⟩
        rw [heq (by omega), hentries, List.append_assoc, List.singleton_append]

/-- The parts of a split string have characters of the string, and not the separator. -/
theorem mem_of_mem_splitOn {s part : Chars} {separator c : Char} (hpart : part ∈ s.splitOn separator)
    (hc : c ∈ part) : c ∈ s ∧ c ≠ separator := by
  induction s generalizing part with
  | nil =>
      rw [List.splitOn_nil, List.mem_singleton] at hpart
      subst hpart
      cases hc
  | cons d s ih =>
      rw [List.splitOn_cons_eq_if_modifyHead] at hpart
      split at hpart
      · rcases List.mem_cons.mp hpart with rfl | hpart
        · cases hc
        · exact ⟨List.mem_cons_of_mem _ (ih hpart hc).1, (ih hpart hc).2⟩
      · rename_i hne
        cases hsplit : s.splitOn separator with
        | nil => exact absurd hsplit (List.splitOn_ne_nil separator s)
        | cons first rest =>
            rw [hsplit, List.modifyHead_cons] at hpart
            rcases List.mem_cons.mp hpart with rfl | hpart
            · rcases List.mem_cons.mp hc with rfl | hc
              · exact ⟨List.mem_cons_self, by simpa using hne⟩
              · have hfirst := ih (hsplit ▸ List.mem_cons_self) hc
                exact ⟨List.mem_cons_of_mem _ hfirst.1, hfirst.2⟩
            · have hrest := ih (hsplit ▸ List.mem_cons_of_mem _ hpart) hc
              exact ⟨List.mem_cons_of_mem _ hrest.1, hrest.2⟩

/-! ### Printing -/

/-- An extension as it comes out of an architecture string. -/
structure Printable (component : Chars × Nat × Nat) : Prop where
  separator : '_' ∉ component.1
  null : Char.ofNat 0 ∉ component.1
  major : component.2.1 < 10
  minor : component.2.2 < 10

theorem Printable.componentString {component : Chars × Nat × Nat} (h : Printable component) :
    componentString component
      = component.1 ++ [component.2.1.digitChar, 'p', component.2.2.digitChar] := by
  rw [Riscv.componentString, Nat.toDigits_of_lt_base h.major, Nat.toDigits_of_lt_base h.minor]
  simp

theorem Printable.parseComponent {component : Chars × Nat × Nat} (h : Printable component) :
    parseComponent (Riscv.componentString component) = .ok component := by
  refine parseComponent_eq_ok.mpr ⟨_, _, h.componentString, ?_, ?_, ?_⟩
  · rw [Nat.isDigit_digitChar, decide_eq_true h.major]
  · rw [Nat.isDigit_digitChar, decide_eq_true h.minor]
  · show component.2 = (component.2.1.digitChar.toNat - 48, component.2.2.digitChar.toNat - 48)
    rw [Nat.toNat_digitChar_sub_48_of_lt_ten h.major, Nat.toNat_digitChar_sub_48_of_lt_ten h.minor]

/-- A digit is neither the separator nor null. -/
theorem digitChar_ne {n : Nat} (h : n < 10) : n.digitChar ≠ '_' ∧ n.digitChar ≠ Char.ofNat 0 := by
  have hdigit : n.digitChar.isDigit = true := by rw [Nat.isDigit_digitChar, decide_eq_true h]
  constructor
  · intro heq
    rw [heq] at hdigit
    exact absurd hdigit (by decide)
  · intro heq
    rw [heq] at hdigit
    exact absurd hdigit (by decide)

theorem Printable.notMem {component : Chars × Nat × Nat} (h : Printable component) :
    '_' ∉ Riscv.componentString component ∧ Char.ofNat 0 ∉ Riscv.componentString component := by
  rw [h.componentString]
  have hmajor := digitChar_ne h.major
  have hminor := digitChar_ne h.minor
  have hp : ('p' : Char) ≠ '_' ∧ ('p' : Char) ≠ Char.ofNat 0 := by decide
  constructor
  · simp only [List.mem_append, List.mem_cons, List.not_mem_nil, or_false, not_or]
    exact ⟨h.separator, hmajor.1.symm, hp.1.symm, hminor.1.symm⟩
  · simp only [List.mem_append, List.mem_cons, List.not_mem_nil, or_false, not_or]
    exact ⟨h.null, hmajor.2.symm, hp.2.symm, hminor.2.symm⟩

/-- An architecture that comes back from its string. -/
structure RiscVArch.Printable (arch : RiscVArch) : Prop where
  nonempty : arch.map.entries ≠ []
  components : ∀ component ∈ arch.map.entries, Riscv.Printable component

theorem mem_intercalate {parts : List Chars} {separator c : Char}
    (h : c ∈ [separator].intercalate parts) : c = separator ∨ ∃ part ∈ parts, c ∈ part := by
  induction parts with
  | nil => cases h
  | cons part parts ih =>
      cases parts with
      | nil => exact .inr ⟨part, List.mem_cons_self, by simpa using h⟩
      | cons next parts =>
          rw [List.intercalate_cons_cons, List.mem_append, List.mem_append, List.mem_singleton] at h
          rcases h with (hc | rfl) | hc
          · exact .inr ⟨part, List.mem_cons_self, hc⟩
          · exact .inl rfl
          · refine (ih hc).imp_right ?_
            rintro ⟨part', hpart', hc⟩
            exact ⟨part', List.mem_cons_of_mem _ hpart', hc⟩

theorem RiscVArch.Printable.null_notMem {arch : RiscVArch} (h : arch.Printable) :
    Char.ofNat 0 ∉ arch.toAttributeString := by
  intro hmem
  rcases mem_intercalate hmem with heq | ⟨part, hpart, hc⟩
  · exact absurd heq (by decide)
  · obtain ⟨component, hcomponent, rfl⟩ := List.mem_map.mp hpart
    exact (h.components component hcomponent).notMem.2 hc

/-- Architectures with the same extensions in the same order are the same. -/
theorem RiscVArch.ext_entries {arch arch' : RiscVArch} (h : arch.map.entries = arch'.map.entries) :
    arch = arch' := by
  obtain ⟨⟨entries, hnodup⟩⟩ := arch
  obtain ⟨⟨entries', hnodup'⟩⟩ := arch'
  obtain rfl : entries = entries' := h
  rfl

theorem exists_of_forall₂_right {α β : Type} {R : α → β → Prop} {l : List α} {l' : List β}
    (h : List.Forall₂ R l l') {b : β} (hb : b ∈ l') : ∃ a ∈ l, R a b := by
  induction h with
  | nil => cases hb
  | cons hr _ ih =>
      rcases List.mem_cons.mp hb with rfl | hb
      · exact ⟨_, List.mem_cons_self, hr⟩
      · obtain ⟨a, ha, hr⟩ := ih hb
        exact ⟨a, List.mem_cons_of_mem _ ha, hr⟩

theorem forall₂_map_self {α β : Type} {f : α → β} {R : β → α → Prop} {l : List α}
    (h : ∀ a ∈ l, R (f a) a) : List.Forall₂ R (l.map f) l := by
  induction l with
  | nil => exact .nil
  | cons a l ih =>
      exact .cons (h a List.mem_cons_self) (ih fun b hb => h b (List.mem_cons_of_mem _ hb))

/-- What is printed is read back. -/
theorem RiscVArch.Printable.parseArch {arch : RiscVArch} (h : arch.Printable) :
    parseArch arch.toAttributeString = .ok arch := by
  have hsplit : arch.toAttributeString.splitOn '_' = arch.map.entries.map componentString := by
    refine List.splitOn_intercalate '_' (fun part hpart => ?_) (by simpa using h.nonempty)
    obtain ⟨component, hcomponent, rfl⟩ := List.mem_map.mp hpart
    exact (h.components component hcomponent).notMem.1
  have hfold := foldlM_insertComponent
    (forall₂_map_self fun component hcomponent => (h.components component hcomponent).parseComponent)
    HashTable.empty
  have hentries : (arch.map.entries.foldl (fun map c => map.update c.1 fun _ => c.2)
      HashTable.empty).entries = [] ++ arch.map.entries :=
    entries_foldl_update arch.map.nodup (by simp [HashTable.empty])
  rw [Riscv.parseArch, hsplit, hfold, Fallible.bind_ok]
  exact congrArg Except.ok (RiscVArch.ext_entries hentries)

/-! ### Reading -/

theorem digit_lt {c : Char} (h : c.isDigit = true) : c.toNat - '0'.toNat < 10 := by
  rw [Char.isDigit, Bool.and_eq_true, decide_eq_true_eq, decide_eq_true_eq] at h
  have hle : c.toNat ≤ '9'.toNat := UInt32.le_iff_toNat_le.mp h.2
  have h9 : '9'.toNat = 57 := rfl
  have h0 : '0'.toNat = 48 := rfl
  omega

/-- Entries of a table after insertions were inserted. -/
theorem mem_foldl_update {components : List (Chars × Nat × Nat)}
    {map : HashTable Chars (Nat × Nat)} {c : Chars × Nat × Nat}
    (h : c ∈ (components.foldl (fun map c => map.update c.1 fun _ => c.2) map).entries) :
    c ∈ map.entries ∨ c ∈ components := by
  induction components generalizing map with
  | nil => exact .inl h
  | cons d components ih =>
      rcases ih h with hmem | hmem
      · have hget : (map.update d.1 fun _ => d.2).get? c.1 = some c.2 :=
          HashTable.mem_entries_iff.mp hmem
        rw [HashTable.get?_update] at hget
        split at hget
        · rename_i hkey
          have hc : c = d := Prod.ext hkey (Option.some.inj hget).symm
          exact .inr (hc ▸ List.mem_cons_self)
        · exact .inl (HashTable.mem_entries_iff.mpr hget)
      · exact .inr (List.mem_cons_of_mem _ hmem)

theorem foldl_update_ne_nil {components : List (Chars × Nat × Nat)}
    {map : HashTable Chars (Nat × Nat)} (h : map.entries ≠ [] ∨ components ≠ []) :
    (components.foldl (fun map c => map.update c.1 fun _ => c.2) map).entries ≠ [] := by
  induction components generalizing map with
  | nil => exact h.resolve_right fun hne => hne rfl
  | cons c components ih =>
      have hkey : c.1 ∈ (map.update c.1 fun _ => c.2).entries.map Prod.fst :=
        HashTable.mem_keys_updateEntries.mpr (.inl rfl)
      exact ih (.inl fun hnil => by simp [hnil] at hkey)

/-- What is read can be printed. -/
theorem parseArch_printable {s : Chars} {arch : RiscVArch} (hnull : Char.ofNat 0 ∉ s)
    (h : parseArch s = .ok arch) : arch.Printable := by
  obtain ⟨map, hmap, harch⟩ := Fallible.bind_eq_ok.mp h
  cases harch
  obtain ⟨components, hall, rfl⟩ := forall₂_of_foldlM hmap
  constructor
  · refine foldl_update_ne_nil (.inr fun hnil => ?_)
    rw [hnil, List.forall₂_nil_right_iff] at hall
    exact List.splitOn_ne_nil '_' s hall
  · intro component hcomponent
    have hmem := (mem_foldl_update hcomponent).resolve_left (by simp [HashTable.empty])
    obtain ⟨part, hpart, hparsed⟩ := exists_of_forall₂_right hall hmem
    obtain ⟨major, minor, rfl, hmajor, hminor, hversion⟩ := parseComponent_eq_ok.mp hparsed
    have hchars : ∀ c ∈ component.1, c ∈ s ∧ c ≠ '_' := fun c hc =>
      mem_of_mem_splitOn hpart (List.mem_append_left _ hc)
    constructor
    · exact fun hc => (hchars _ hc).2 rfl
    · exact fun hc => hnull (hchars _ hc).1
    · rw [hversion]
      exact digit_lt hmajor
    · rw [hversion]
      exact digit_lt hminor

/-! ### Version numbers of any length -/

/-- An extension with version numbers in decimal. -/
structure Extension where
  name : Chars
  major : Chars
  minor : Chars

structure Extension.WellFormed (extension : Extension) : Prop where
  name : '_' ∉ extension.name
  major : extension.major ≠ [] ∧ ∀ c ∈ extension.major, c.isDigit = true
  minor : extension.minor ≠ [] ∧ ∀ c ∈ extension.minor, c.isDigit = true

def Extension.string (extension : Extension) : Chars :=
  extension.name ++ extension.major ++ 'p' :: extension.minor

/-- The extension with its numbers. -/
def Extension.component (extension : Extension) : Chars × Nat × Nat :=
  (extension.name, Nat.ofDigitChars 10 extension.major 0, Nat.ofDigitChars 10 extension.minor 0)

def archString (extensions : List Extension) : Chars :=
  ['_'].intercalate (extensions.map Extension.string)

/-- The architecture string is accepted, and every number is kept. -/
def KeepsVersions (extensions : List Extension) : Prop :=
  ∃ arch, parseArch (archString extensions) = .ok arch
    ∧ arch.map.entries = extensions.map Extension.component

def Extension.OneDigitEach (extension : Extension) : Prop :=
  extension.major.length = 1 ∧ extension.minor.length = 1

theorem Extension.WellFormed.separator {extension : Extension} (h : extension.WellFormed) :
    '_' ∉ extension.string := by
  have hdigit : ¬('_').isDigit = true := by decide
  simp only [Extension.string, List.mem_append, List.mem_cons, not_or]
  exact ⟨⟨h.name, fun hc => hdigit (h.major.2 _ hc)⟩, by decide, fun hc => hdigit (h.minor.2 _ hc)⟩

/-- Only numbers of one digit are read as what they are. -/
theorem Extension.WellFormed.parseComponent_iff {extension : Extension} (h : extension.WellFormed) :
    parseComponent extension.string = .ok extension.component ↔ extension.OneDigitEach := by
  rw [parseComponent_eq_ok]
  constructor
  · rintro ⟨major, minor, hstring, -⟩
    have hlength := congrArg List.length hstring
    have hmajor := List.length_pos_of_ne_nil h.major.1
    have hminor := List.length_pos_of_ne_nil h.minor.1
    simp only [Extension.string, Extension.component, List.length_append, List.length_cons,
      List.length_nil] at hlength
    exact ⟨by omega, by omega⟩
  · rintro ⟨hmajor, hminor⟩
    obtain ⟨major, hmajor⟩ := List.length_eq_one_iff.mp hmajor
    obtain ⟨minor, hminor⟩ := List.length_eq_one_iff.mp hminor
    refine ⟨major, minor, ?_, h.major.2 _ (by simp [hmajor]), h.minor.2 _ (by simp [hminor]), ?_⟩
    · simp [Extension.string, Extension.component, hmajor, hminor]
    · simp [Extension.component, hmajor, hminor, Nat.ofDigitChars_cons]

/-- Version numbers are kept exactly when they all have one digit. -/
theorem keepsVersions_iff {extensions : List Extension} (hne : extensions ≠ [])
    (hwellFormed : ∀ extension ∈ extensions, extension.WellFormed)
    (hnodup : (extensions.map Extension.name).Nodup) :
    KeepsVersions extensions ↔ ∀ extension ∈ extensions, extension.OneDigitEach := by
  have hsplit : (archString extensions).splitOn '_' = extensions.map Extension.string := by
    refine List.splitOn_intercalate '_' (fun part hpart => ?_) (by simpa using hne)
    obtain ⟨extension, hextension, rfl⟩ := List.mem_map.mp hpart
    exact (hwellFormed extension hextension).separator
  constructor
  · rintro ⟨arch, harch, hentries⟩ extension hextension
    obtain ⟨map, hmap, heq⟩ := Fallible.bind_eq_ok.mp harch
    cases heq
    rw [hsplit] at hmap
    obtain ⟨components, hall, rfl⟩ := forall₂_of_foldlM hmap
    -- As many entries as extensions: each was new, and stands where its extension does.
    have hlength : components.length = extensions.length := by
      rw [← hall.length_eq, List.length_map]
    have hlist : extensions.map Extension.component = components := by
      rw [← hentries, (@entries_of_length components HashTable.empty).2 ?_]
      · rfl
      · rw [hentries, List.length_map, hlength]
        exact (Nat.zero_add _).symm
    rw [← hlist, List.forall₂_map_left_iff, List.forall₂_map_right_iff] at hall
    have hparsed := List.forall₂_same.mp hall extension hextension
    exact (hwellFormed extension hextension).parseComponent_iff.mp hparsed
  · intro hdigits
    have hall : List.Forall₂ (fun part component => parseComponent part = .ok component)
        (extensions.map Extension.string) (extensions.map Extension.component) := by
      rw [List.forall₂_map_left_iff, List.forall₂_map_right_iff, List.forall₂_same]
      exact fun extension hextension =>
        (hwellFormed extension hextension).parseComponent_iff.mpr (hdigits extension hextension)
    have hnames : ((extensions.map Extension.component).map Prod.fst).Nodup := by
      rw [List.map_map]
      exact hnodup
    have hnew : ∀ c ∈ extensions.map Extension.component,
        c.1 ∉ (HashTable.empty : HashTable Chars (Nat × Nat)).entries.map Prod.fst := by
      simp [HashTable.empty]
    refine ⟨_, ?_, entries_foldl_update hnames hnew⟩
    rw [parseArch, hsplit, foldlM_insertComponent hall, Fallible.bind_ok]
    rfl

end JdxLinker.Riscv
