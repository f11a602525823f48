import JdxLinker.Lib.Failure
import JdxLinker.Lib.HashTable

/-!
# GNU property notes

The properties that the objects of a link have are merged, each in the way that its type asks for. The
types that only hold if all objects have them are left out where an object lacks them.
-/

namespace JdxLinker.Elf

inductive Architecture where
  | x86_64
  | aarch64
  | loongArch64
  | ppc64
  | riscV64
  deriving DecidableEq, Repr

inductive PropertyClass where
  /-- A bit is set if it is set in any input. -/
  | or
  /-- A bit is set if it is set in all inputs. -/
  | and
  /-- A bit is set if it is set in any input, and all inputs have the property. -/
  | andOr
  deriving DecidableEq, Repr

structure GnuProperty where
  ptype : UInt32
  data : UInt32
  deriving DecidableEq, Repr

def GNU_PROPERTY_X86_ISA_1_NEEDED : UInt32 := 0xc0008002

def Architecture.getPropertyClass : Architecture → UInt32 → Option PropertyClass
  | x86_64, propertyType =>
      if 0xc0000002 ≤ propertyType ∧ propertyType ≤ 0xc0007fff then some .and
      else if 0xc0008000 ≤ propertyType ∧ propertyType ≤ 0xc000ffff then some .or
      else if 0xc0010000 ≤ propertyType ∧ propertyType ≤ 0xc0017fff then some .andOr
      else if 0xb0000000 ≤ propertyType ∧ propertyType ≤ 0xb0007fff then some .and
      else if 0xb0008000 ≤ propertyType ∧ propertyType ≤ 0xb000ffff then some .or
      else none
  | aarch64, propertyType => if propertyType = 0xc0000000 then some .and else none
  | loongArch64, _ | ppc64, _ | riscV64, _ => none

section Merge

variable (arch : Architecture) (display : UInt32 → String)

/-- What is collected of a type: its bits so far, and how they are merged. -/
abbrev PropertyMap := HashTable UInt32 (UInt32 × PropertyClass)

def classify (prop : GnuProperty) : Fallible PropertyClass :=
  Fallible.context (arch.getPropertyClass prop.ptype)
    s!"unclassified property type {display prop.ptype}"

/-- The features that a file has, of all its properties. -/
def mergeFile (fileProps : List GnuProperty) : Fallible PropertyMap :=
  fileProps.foldlM (fun fileMap prop => do
    let propertyClass ← classify arch display prop
    .ok (fileMap.update prop.ptype fun
      | some entry => (entry.1 ||| prop.data, entry.2)
      | none => (prop.data, propertyClass))) .empty

def mergeEntry (entry : UInt32 × UInt32 × PropertyClass) :
    Option (UInt32 × PropertyClass) → UInt32 × PropertyClass
  | some merged =>
      (if entry.2.2 = .and then merged.1 &&& entry.2.1 else merged.1 ||| entry.2.1, merged.2)
  | none => entry.2

/-- Merges what is needed on the command line. -/
def addIsaNeeded (isaNeeded : Option UInt32) (propertyMap : PropertyMap) : PropertyMap :=
  match isaNeeded with
  | some isaNeeded => propertyMap.update GNU_PROPERTY_X86_ISA_1_NEEDED fun
      | some entry => (entry.1 ||| isaNeeded, entry.2)
      | none => (0 ||| isaNeeded, .or)
  | none => propertyMap

def outputProperty (propertiesPerFile : List (List GnuProperty))
    (entry : UInt32 × UInt32 × PropertyClass) : Option GnuProperty :=
  let typePresentInAll := propertiesPerFile.all fun propsPerFile =>
    propsPerFile.any fun prop => prop.ptype = entry.1
  let isOutput : Bool := match entry.2.2 with
    | .or => entry.2.1 ≠ 0
    | .and => typePresentInAll && entry.2.1 ≠ 0
    | .andOr => typePresentInAll
  if isOutput then some ⟨entry.1, entry.2.1⟩ else none

def mergeGnuPropertyNotes (iteration : Iteration UInt32 (UInt32 × PropertyClass))
    (propertiesPerFile : List (List GnuProperty)) (isaNeeded : Option UInt32) :
    Fallible (List GnuProperty) := do
  let propertyMap ← propertiesPerFile.foldlM (fun propertyMap fileProps => do
    let fileMap ← mergeFile arch display fileProps
    .ok ((fileMap.reorder iteration).entries.foldl
      (fun propertyMap entry => propertyMap.update entry.1 (mergeEntry entry)) propertyMap)) .empty
  let propertyMap := addIsaNeeded isaNeeded propertyMap
  .ok (((propertyMap.reorder iteration).entries.mergeSort fun a b => a.1 ≤ b.1).filterMap
    (outputProperty propertiesPerFile))

end Merge

/-! ### What is merged -/

def orBits (values : List UInt32) : UInt32 := values.foldl (· ||| ·) 0

def andBits (values : List UInt32) : UInt32 := values.foldl (· &&& ·) (-1)

/-- The bits that a file has of a type. -/
def bitsOf (ptype : UInt32) (fileProps : List GnuProperty) : UInt32 :=
  orBits ((fileProps.filter fun prop => prop.ptype = ptype).map GnuProperty.data)

def HasType (ptype : UInt32) (fileProps : List GnuProperty) : Prop :=
  ∃ prop ∈ fileProps, prop.ptype = ptype

instance (ptype : UInt32) (fileProps : List GnuProperty) : Decidable (HasType ptype fileProps) := by
  unfold HasType
  infer_instance

/-- There are objects, and all of them have the type. -/
def PresentInAll (files : List (List GnuProperty)) (ptype : UInt32) : Prop :=
  files ≠ [] ∧ ∀ fileProps ∈ files, HasType ptype fileProps

/-- The bits of a type that the command line asks for. -/
def neededBits (isaNeeded : Option UInt32) (ptype : UInt32) : UInt32 :=
  if ptype = GNU_PROPERTY_X86_ISA_1_NEEDED then isaNeeded.getD 0 else 0

/-- How a type is merged. The command line can ask for a type that the architecture does not have. -/
def mergedClass (arch : Architecture) (isaNeeded : Option UInt32) (ptype : UInt32) :
    Option PropertyClass :=
  if ptype = GNU_PROPERTY_X86_ISA_1_NEEDED ∧ isaNeeded.isSome then some .or
  else arch.getPropertyClass ptype

/-- A property of the output, from its definition. -/
def Merged (arch : Architecture) (files : List (List GnuProperty)) (isaNeeded : Option UInt32)
    (note : GnuProperty) : Prop :=
  match mergedClass arch isaNeeded note.ptype with
  | some .or =>
      note.data = orBits (files.map (bitsOf note.ptype)) ||| neededBits isaNeeded note.ptype ∧
        note.data ≠ 0
  | some .and =>
      PresentInAll files note.ptype ∧ note.data = andBits (files.map (bitsOf note.ptype)) ∧
        note.data ≠ 0
  | some .andOr =>
      PresentInAll files note.ptype ∧ note.data = orBits (files.map (bitsOf note.ptype))
  | none => False

/-- The properties of the files are of types that the architecture knows. -/
def AllClassified (arch : Architecture) (files : List (List GnuProperty)) : Prop :=
  ∀ fileProps ∈ files, ∀ prop ∈ fileProps, (arch.getPropertyClass prop.ptype).isSome = true

/-! ### What is collected -/

theorem foldlM_eq_foldl {α σ : Type} {step : σ → α → Fallible σ} {next : σ → α → σ} {as : List α}
    (h : ∀ a ∈ as, ∀ s, step s a = .ok (next s a)) (s : σ) :
    as.foldlM step s = .ok (as.foldl next s) := by
  induction as generalizing s with
  | nil => rfl
  | cons a as ih =>
      rw [List.foldlM_cons, h a List.mem_cons_self s, Fallible.bind_ok,
        ih fun b hb => h b (List.mem_cons_of_mem a hb)]
      rfl

theorem foldl_or (x : UInt32) (values : List UInt32) :
    values.foldl (· ||| ·) x = x ||| orBits values := by
  induction values generalizing x with
  | nil => exact UInt32.or_zero.symm
  | cons value values ih =>
      rw [orBits, List.foldl_cons, List.foldl_cons, ih, ih (0 ||| value), UInt32.zero_or,
        UInt32.or_assoc]

theorem foldl_and (x : UInt32) (values : List UInt32) :
    values.foldl (· &&& ·) x = x &&& andBits values := by
  induction values generalizing x with
  | nil => exact UInt32.and_neg_one.symm
  | cons value values ih =>
      rw [andBits, List.foldl_cons, List.foldl_cons, ih, ih (-1 &&& value), UInt32.neg_one_and,
        UInt32.and_assoc]

theorem orBits_cons (value : UInt32) (values : List UInt32) :
    orBits (value :: values) = value ||| orBits values := by
  rw [orBits, List.foldl_cons, UInt32.zero_or, foldl_or]

theorem andBits_cons (value : UInt32) (values : List UInt32) :
    andBits (value :: values) = value &&& andBits values := by
  rw [andBits, List.foldl_cons, UInt32.neg_one_and, foldl_and]

section Collected

variable {arch : Architecture} {display : UInt32 → String}

/-- The class of a type that the architecture knows. -/
def classOf (arch : Architecture) (ptype : UInt32) : PropertyClass :=
  (arch.getPropertyClass ptype).getD .or

def mergeProperty (arch : Architecture) (prop : GnuProperty) :
    Option (UInt32 × PropertyClass) → UInt32 × PropertyClass
  | some entry => (entry.1 ||| prop.data, entry.2)
  | none => (prop.data, classOf arch prop.ptype)

theorem mergeFile_eq_ok {fileProps : List GnuProperty}
    (h : ∀ prop ∈ fileProps, (arch.getPropertyClass prop.ptype).isSome = true) :
    mergeFile arch display fileProps = .ok (fileProps.foldl
      (fun fileMap prop => fileMap.update prop.ptype (mergeProperty arch prop)) .empty) := by
  apply foldlM_eq_foldl
  intro prop hprop fileMap
  obtain ⟨propertyClass, hclass⟩ := Option.isSome_iff_exists.mp (h prop hprop)
  rw [classify, hclass, Fallible.context, Fallible.bind_ok]
  congr 2
  funext entry
  cases entry with
  | some entry => rfl
  | none => rw [mergeProperty, classOf, hclass, Option.getD_some]

/-- Bits of one type are collected one after another. -/
theorem foldl_mergeProperty (props : List GnuProperty) (entry : UInt32 × PropertyClass) :
    props.foldl (fun merged prop => some (mergeProperty arch prop merged)) (some entry) =
      some (entry.1 ||| orBits (props.map GnuProperty.data), entry.2) := by
  induction props generalizing entry with
  | nil =>
      rw [List.map_nil]
      exact congrArg (fun x => some (x, entry.2)) UInt32.or_zero.symm
  | cons prop props ih =>
      rw [List.foldl_cons, mergeProperty, ih, List.map_cons, orBits_cons, UInt32.or_assoc]

/-- What a file has of a type. -/
theorem get?_fileMap (fileProps : List GnuProperty) (ptype : UInt32) :
    (fileProps.foldl (fun fileMap prop => fileMap.update prop.ptype (mergeProperty arch prop))
        HashTable.empty).get? ptype =
      if HasType ptype fileProps then some (bitsOf ptype fileProps, classOf arch ptype) else none := by
  rw [HashTable.get?_foldl_update, HashTable.get?_empty, bitsOf]
  have htype : ∀ prop ∈ fileProps.filter fun prop => prop.ptype = ptype, prop.ptype = ptype :=
    fun prop hprop => of_decide_eq_true (List.mem_filter.mp hprop).2
  have hhas : HasType ptype fileProps ↔ (fileProps.filter fun prop => prop.ptype = ptype) ≠ [] := by
    rw [ne_eq, List.filter_eq_nil_iff]
    simp [HasType]
  generalize fileProps.filter (fun prop => decide (prop.ptype = ptype)) = props at htype hhas ⊢
  cases props with
  | nil => rw [if_neg (fun h => hhas.mp h rfl), List.foldl_nil]
  | cons prop props =>
      rw [if_pos (hhas.mpr (List.cons_ne_nil prop props)), List.foldl_cons, mergeProperty,
        foldl_mergeProperty, htype prop List.mem_cons_self, List.map_cons, orBits_cons]

/-- The bits of files, merged in the way of a class. -/
def combined (propertyClass : PropertyClass) (values : List UInt32) : UInt32 :=
  if propertyClass = .and then andBits values else orBits values

theorem mergeEntry_combined (ptype x value : UInt32) (propertyClass : PropertyClass)
    (values : List UInt32) :
    mergeEntry (ptype, combined propertyClass (value :: values), propertyClass)
        (some (x, propertyClass)) =
      mergeEntry (ptype, combined propertyClass values, propertyClass)
        (some (mergeEntry (ptype, value, propertyClass) (some (x, propertyClass)))) := by
  simp only [mergeEntry, combined]
  split
  · rw [andBits_cons, UInt32.and_assoc]
  · rw [orBits_cons, UInt32.or_assoc]

/-- The map after the files are merged into it, if they are of types that the architecture knows. -/
def collected (arch : Architecture) (iteration : Iteration UInt32 (UInt32 × PropertyClass))
    (files : List (List GnuProperty)) (propertyMap : PropertyMap) : PropertyMap :=
  files.foldl (fun propertyMap fileProps =>
    ((fileProps.foldl (fun fileMap prop => fileMap.update prop.ptype (mergeProperty arch prop))
        HashTable.empty).reorder iteration).entries.foldl
      (fun propertyMap entry => propertyMap.update entry.1 (mergeEntry entry)) propertyMap) propertyMap

/-- What one file changes for a type. -/
theorem get?_mergeFile (iteration : Iteration UInt32 (UInt32 × PropertyClass))
    (propertyMap : PropertyMap) (fileProps : List GnuProperty) (ptype : UInt32) :
    (collected arch iteration [fileProps] propertyMap).get? ptype =
      if HasType ptype fileProps then
        some (mergeEntry (ptype, bitsOf ptype fileProps, classOf arch ptype) (propertyMap.get? ptype))
      else propertyMap.get? ptype := by
  rw [collected, List.foldl_cons, List.foldl_nil, HashTable.get?_foldl_update,
    HashTable.filter_entries, HashTable.get?_reorder, get?_fileMap]
  split <;> rfl

/-- What files change for a type that is in the map. -/
theorem get?_collected_some (iteration : Iteration UInt32 (UInt32 × PropertyClass))
    (files : List (List GnuProperty)) {propertyMap : PropertyMap} {ptype x : UInt32}
    (h : propertyMap.get? ptype = some (x, classOf arch ptype)) :
    (collected arch iteration files propertyMap).get? ptype =
      some (mergeEntry (ptype, combined (classOf arch ptype)
        ((files.filter fun fileProps => HasType ptype fileProps).map (bitsOf ptype)),
          classOf arch ptype) (some (x, classOf arch ptype))) := by
  induction files generalizing propertyMap x with
  | nil =>
      show propertyMap.get? ptype = _
      rw [h, List.filter_nil, List.map_nil, mergeEntry, combined]
      split
      · exact congrArg (fun y => some (y, classOf arch ptype)) UInt32.and_neg_one.symm
      · exact congrArg (fun y => some (y, classOf arch ptype)) UInt32.or_zero.symm
  | cons fileProps files ih =>
      have hfirst := @get?_mergeFile arch iteration propertyMap fileProps ptype
      show (collected arch iteration files (collected arch iteration [fileProps] propertyMap)).get?
        ptype = _
      by_cases hhas : HasType ptype fileProps
      · rw [if_pos hhas, h] at hfirst
        rw [ih hfirst, List.filter_cons_of_pos (by simpa using hhas), List.map_cons,
          mergeEntry_combined]
        rfl
      · rw [if_neg hhas, h] at hfirst
        rw [ih hfirst, List.filter_cons_of_neg (by simpa using hhas)]

/-- What files leave for a type that is not in the map. -/
theorem get?_collected_none (iteration : Iteration UInt32 (UInt32 × PropertyClass))
    (files : List (List GnuProperty)) {propertyMap : PropertyMap} {ptype : UInt32}
    (h : propertyMap.get? ptype = none) :
    (collected arch iteration files propertyMap).get? ptype =
      if ∃ fileProps ∈ files, HasType ptype fileProps then
        some (combined (classOf arch ptype)
          ((files.filter fun fileProps => HasType ptype fileProps).map (bitsOf ptype)),
            classOf arch ptype)
      else none := by
  induction files generalizing propertyMap with
  | nil =>
      rw [if_neg (by simp)]
      exact h
  | cons fileProps files ih =>
      have hfirst := @get?_mergeFile arch iteration propertyMap fileProps ptype
      show (collected arch iteration files (collected arch iteration [fileProps] propertyMap)).get?
        ptype = _
      by_cases hhas : HasType ptype fileProps
      · rw [if_pos hhas, h] at hfirst
        rw [get?_collected_some iteration files hfirst,
          if_pos ⟨fileProps, List.mem_cons_self, hhas⟩,
          List.filter_cons_of_pos (by simpa using hhas), List.map_cons, mergeEntry]
        simp only [combined]
        split
        · rw [andBits_cons]
        · rw [orBits_cons]
      · rw [if_neg hhas, h] at hfirst
        rw [ih hfirst, List.filter_cons_of_neg (by simpa using hhas)]
        simp only [List.exists_mem_cons_iff, hhas, false_or]

/-- A file without a type adds no bits of it. -/
theorem bitsOf_eq_zero {fileProps : List GnuProperty} {ptype : UInt32}
    (h : ¬ HasType ptype fileProps) : bitsOf ptype fileProps = 0 := by
  have hnone : (fileProps.filter fun prop => prop.ptype = ptype) = [] := by
    rw [List.filter_eq_nil_iff]
    intro prop hprop heq
    exact h ⟨prop, hprop, of_decide_eq_true heq⟩
  rw [bitsOf, hnone]
  rfl

theorem orBits_filter (files : List (List GnuProperty)) (ptype : UInt32) :
    orBits ((files.filter fun fileProps => HasType ptype fileProps).map (bitsOf ptype)) =
      orBits (files.map (bitsOf ptype)) := by
  induction files with
  | nil => rfl
  | cons fileProps files ih =>
      rw [List.map_cons, orBits_cons]
      by_cases hhas : HasType ptype fileProps
      · rw [List.filter_cons_of_pos (by simpa using hhas), List.map_cons, orBits_cons, ih]
      · rw [List.filter_cons_of_neg (by simpa using hhas), ih, bitsOf_eq_zero hhas, UInt32.zero_or]

/-! ### What is output -/

theorem getPropertyClass_isaNeeded (arch : Architecture) :
    arch.getPropertyClass GNU_PROPERTY_X86_ISA_1_NEEDED = none ∨
      arch.getPropertyClass GNU_PROPERTY_X86_ISA_1_NEEDED = some .or := by
  cases arch <;> decide

/-- What the map holds for a type in the end. -/
theorem get?_addIsaNeeded (isaNeeded : Option UInt32) (propertyMap : PropertyMap) (ptype : UInt32) :
    (addIsaNeeded isaNeeded propertyMap).get? ptype =
      if ptype = GNU_PROPERTY_X86_ISA_1_NEEDED ∧ isaNeeded.isSome then
        some (((propertyMap.get? ptype).getD (0, .or)).1 ||| isaNeeded.getD 0,
          ((propertyMap.get? ptype).getD (0, .or)).2)
      else propertyMap.get? ptype := by
  cases isaNeeded with
  | none => rw [addIsaNeeded, if_neg (by simp)]
  | some isaNeeded =>
      rw [addIsaNeeded, HashTable.get?_update]
      by_cases h : ptype = GNU_PROPERTY_X86_ISA_1_NEEDED
      · subst h
        rw [if_pos rfl, if_pos ⟨rfl, rfl⟩]
        cases propertyMap.get? GNU_PROPERTY_X86_ISA_1_NEEDED <;> rfl
      · rw [if_neg h, if_neg fun h' => h h'.1]

theorem outputProperty_eq_some {files : List (List GnuProperty)}
    {entry : UInt32 × UInt32 × PropertyClass} {note : GnuProperty} :
    outputProperty files entry = some note ↔
      (match entry.2.2 with
        | .or => entry.2.1 ≠ 0
        | .and => (∀ fileProps ∈ files, HasType entry.1 fileProps) ∧ entry.2.1 ≠ 0
        | .andOr => ∀ fileProps ∈ files, HasType entry.1 fileProps) ∧
      ⟨entry.1, entry.2.1⟩ = note := by
  have hall : (files.all fun props => props.any fun prop => decide (prop.ptype = entry.1)) = true ↔
      ∀ fileProps ∈ files, HasType entry.1 fileProps := by
    simp [HasType]
  rw [outputProperty]
  cases entry.2.2 <;> simp [hall]

/-- The properties of the output are those that the map holds, where they are kept. -/
theorem mem_output {files : List (List GnuProperty)} {propertyMap : PropertyMap}
    {iteration : Iteration UInt32 (UInt32 × PropertyClass)} {note : GnuProperty} :
    note ∈ ((propertyMap.reorder iteration).entries.mergeSort fun a b => a.1 ≤ b.1).filterMap
        (outputProperty files) ↔
      ∃ value, propertyMap.get? note.ptype = some value ∧
        outputProperty files (note.ptype, value) = some note := by
  rw [List.mem_filterMap]
  constructor
  · intro h
    obtain ⟨entry, hentry, houtput⟩ := h
    rw [List.mem_mergeSort] at hentry
    obtain ⟨key, value⟩ := entry
    obtain rfl : key = note.ptype :=
      congrArg GnuProperty.ptype (outputProperty_eq_some.mp houtput).2
    rw [HashTable.mem_entries_iff, HashTable.get?_reorder] at hentry
    exact ⟨value, hentry, houtput⟩
  · intro h
    obtain ⟨value, hget, houtput⟩ := h
    refine ⟨(note.ptype, value), ?_, houtput⟩
    rw [List.mem_mergeSort, HashTable.mem_entries_iff, HashTable.get?_reorder]
    exact hget

/-- The output is in the order of the types, each of which it has once. -/
theorem pairwise_output (files : List (List GnuProperty)) (propertyMap : PropertyMap)
    (iteration : Iteration UInt32 (UInt32 × PropertyClass)) :
    (((propertyMap.reorder iteration).entries.mergeSort fun a b => a.1 ≤ b.1).filterMap
      (outputProperty files)).Pairwise fun a b => a.ptype < b.ptype := by
  have hsorted : ((propertyMap.reorder iteration).entries.mergeSort fun a b => a.1 ≤ b.1).Pairwise
      fun a b => a.1 ≤ b.1 := by
    have hpairwise := @List.pairwise_mergeSort _
      (fun a b : UInt32 × UInt32 × PropertyClass => decide (a.1 ≤ b.1))
      (fun a b c hab hbc =>
        decide_eq_true (UInt32.le_trans (of_decide_eq_true hab) (of_decide_eq_true hbc)))
      (fun a b => by simpa using UInt32.le_total a.1 b.1) (propertyMap.reorder iteration).entries
    exact hpairwise.imp fun h => of_decide_eq_true h
  have hnodup : ((propertyMap.reorder iteration).entries.mergeSort fun a b => a.1 ≤ b.1).Pairwise
      fun a b => a.1 ≠ b.1 := by
    have hperm := List.mergeSort_perm (propertyMap.reorder iteration).entries fun a b => a.1 ≤ b.1
    exact List.pairwise_map.mp ((hperm.map Prod.fst).nodup_iff.mpr (propertyMap.reorder iteration).nodup)
  apply List.Pairwise.filterMap (outputProperty files) _ (hsorted.and hnodup)
  intro a b hab note hnote note' hnote'
  rw [← (outputProperty_eq_some.mp hnote).2, ← (outputProperty_eq_some.mp hnote').2]
  exact UInt32.lt_of_le_of_ne hab.1 hab.2

theorem neededBits_eq_zero {isaNeeded : Option UInt32} {ptype : UInt32}
    (h : ¬ (ptype = GNU_PROPERTY_X86_ISA_1_NEEDED ∧ isaNeeded.isSome = true)) :
    neededBits isaNeeded ptype = 0 := by
  rw [neededBits]
  split
  · rename_i htype
    cases isaNeeded with
    | none => rfl
    | some isaNeeded => exact absurd ⟨htype, rfl⟩ h
  · rfl

theorem orBits_eq_zero {files : List (List GnuProperty)} {ptype : UInt32}
    (h : ¬ ∃ fileProps ∈ files, HasType ptype fileProps) :
    orBits (files.map (bitsOf ptype)) = 0 := by
  rw [← orBits_filter, List.filter_eq_nil_iff.mpr]
  · rfl
  · intro fileProps hfile hhas
    exact h ⟨fileProps, hfile, of_decide_eq_true hhas⟩

theorem filter_hasType {files : List (List GnuProperty)} {ptype : UInt32}
    (h : ∀ fileProps ∈ files, HasType ptype fileProps) :
    (files.filter fun fileProps => HasType ptype fileProps) = files :=
  List.filter_eq_self.mpr fun fileProps hfile => decide_eq_true (h fileProps hfile)

/-- The type that the command line asks for. -/
theorem output_iff_isaNeeded {files : List (List GnuProperty)} (hclassified : AllClassified arch files)
    (iteration : Iteration UInt32 (UInt32 × PropertyClass)) {isaNeeded : Option UInt32}
    {note : GnuProperty} (hisa : note.ptype = GNU_PROPERTY_X86_ISA_1_NEEDED ∧ isaNeeded.isSome) :
    (∃ value, (addIsaNeeded isaNeeded (collected arch iteration files .empty)).get? note.ptype =
        some value ∧ outputProperty files (note.ptype, value) = some note) ↔
      Merged arch files isaNeeded note := by
  have hheld : ((collected arch iteration files .empty).get? note.ptype).getD (0, .or) =
      (orBits (files.map (bitsOf note.ptype)), .or) := by
    rw [get?_collected_none iteration files (HashTable.get?_empty note.ptype)]
    by_cases hhas : ∃ fileProps ∈ files, HasType note.ptype fileProps
    · obtain ⟨fileProps, hfile, prop, hprop, hptype⟩ := hhas
      have hclass : classOf arch note.ptype = .or := by
        have hsome := hclassified fileProps hfile prop hprop
        rw [hptype, hisa.1] at hsome
        rw [classOf, hisa.1]
        obtain hnone | hor := getPropertyClass_isaNeeded arch
        · rw [hnone] at hsome
          cases hsome
        · rw [hor, Option.getD_some]
      rw [if_pos ⟨fileProps, hfile, prop, hprop, hptype⟩, Option.getD_some, hclass, combined,
        if_neg (by decide), orBits_filter]
    · rw [if_neg hhas, orBits_eq_zero hhas, Option.getD_none]
  rw [get?_addIsaNeeded, if_pos hisa, hheld, Merged, mergedClass, if_pos hisa, neededBits,
    if_pos hisa.1]
  constructor
  · intro h
    obtain ⟨value, hvalue, houtput⟩ := h
    obtain rfl := Option.some.inj hvalue
    obtain ⟨hne, hnote⟩ := outputProperty_eq_some.mp houtput
    rw [← hnote]
    exact ⟨rfl, hne⟩
  · intro h
    refine ⟨_, rfl, outputProperty_eq_some.mpr ⟨h.1 ▸ h.2, ?_⟩⟩
    rw [← h.1]

/-- What is kept of the map is what the definition says. -/
theorem output_iff_merged {files : List (List GnuProperty)} (hclassified : AllClassified arch files)
    (iteration : Iteration UInt32 (UInt32 × PropertyClass)) (isaNeeded : Option UInt32)
    (note : GnuProperty) :
    (∃ value, (addIsaNeeded isaNeeded (collected arch iteration files .empty)).get? note.ptype =
        some value ∧ outputProperty files (note.ptype, value) = some note) ↔
      Merged arch files isaNeeded note := by
  by_cases hisa : note.ptype = GNU_PROPERTY_X86_ISA_1_NEEDED ∧ isaNeeded.isSome
  · exact output_iff_isaNeeded hclassified iteration hisa
  rw [get?_addIsaNeeded, if_neg hisa, get?_collected_none iteration files (HashTable.get?_empty _),
    Merged, mergedClass, if_neg hisa, neededBits_eq_zero hisa, UInt32.or_zero]
  by_cases hhas : ∃ fileProps ∈ files, HasType note.ptype fileProps
  · rw [if_pos hhas]
    obtain ⟨fileProps, hfile, prop, hprop, hptype⟩ := hhas
    obtain ⟨propertyClass, hclass⟩ :=
      Option.isSome_iff_exists.mp (hptype ▸ hclassified fileProps hfile prop hprop)
    have hne : files ≠ [] := List.ne_nil_of_mem hfile
    rw [classOf, hclass, Option.getD_some]
    have hheld : ∀ {P : UInt32 × PropertyClass → Prop} {held : UInt32 × PropertyClass},
        (∃ value, some held = some value ∧ P value) ↔ P held := by
      intro P held
      simp
    rw [hheld, outputProperty_eq_some]
    have hnote : ∀ {bits : UInt32}, (⟨note.ptype, bits⟩ : GnuProperty) = note ↔ note.data = bits := by
      intro bits
      obtain ⟨ptype, data⟩ := note
      simp [eq_comm]
    cases propertyClass with
    | or =>
        rw [combined, if_neg (by decide), orBits_filter, hnote]
        constructor
        · exact fun h => ⟨h.2, h.2 ▸ h.1⟩
        · exact fun h => ⟨h.1 ▸ h.2, h.1⟩
    | and =>
        rw [combined, if_pos rfl, hnote]
        constructor
        · intro h
          obtain ⟨⟨hall, hbits⟩, hdata⟩ := h
          rw [filter_hasType hall] at hbits hdata
          exact ⟨⟨hne, hall⟩, hdata, hdata ▸ hbits⟩
        · intro h
          obtain ⟨⟨-, hall⟩, hdata, hbits⟩ := h
          rw [filter_hasType hall]
          exact ⟨⟨hall, hdata ▸ hbits⟩, hdata⟩
    | andOr =>
        rw [combined, if_neg (by decide), orBits_filter, hnote]
        constructor
        · exact fun h => ⟨⟨hne, h.1⟩, h.2⟩
        · exact fun h => ⟨h.1.2, h.2⟩
  · rw [if_neg hhas]
    constructor
    · intro h
      obtain ⟨value, hvalue, -⟩ := h
      cases hvalue
    · intro h
      have hnone : ¬ PresentInAll files note.ptype := by
        intro hpresent
        obtain ⟨fileProps, hfile⟩ := List.exists_mem_of_ne_nil files hpresent.1
        exact hhas ⟨fileProps, hfile, hpresent.2 fileProps hfile⟩
      cases hclass : arch.getPropertyClass note.ptype with
      | none =>
          rw [hclass] at h
          exact h.elim
      | some propertyClass =>
          rw [hclass] at h
          cases propertyClass with
          | or => exact absurd (h.1.trans (orBits_eq_zero hhas)) h.2
          | and => exact absurd h.1 hnone
          | andOr => exact absurd h.1 hnone

theorem mergeGnuPropertyNotes_eq_ok {files : List (List GnuProperty)}
    (hclassified : AllClassified arch files)
    (iteration : Iteration UInt32 (UInt32 × PropertyClass)) (isaNeeded : Option UInt32) :
    mergeGnuPropertyNotes arch display iteration files isaNeeded = .ok
      ((((addIsaNeeded isaNeeded (collected arch iteration files .empty)).reorder
        iteration).entries.mergeSort fun a b => a.1 ≤ b.1).filterMap (outputProperty files)) := by
  rw [mergeGnuPropertyNotes, @foldlM_eq_foldl _ _ _ (fun propertyMap fileProps =>
    collected arch iteration [fileProps] propertyMap)]
  · rfl
  · intro fileProps hfile propertyMap
    rw [mergeFile_eq_ok (hclassified fileProps hfile)]
    rfl

/-- A step that reports an error, if it does not succeed. -/
def Reports {α : Type} (x : Fallible α) : Prop := ∃ message, x = .error (.error message)

/-- A loop over an item that is always reported is reported, if the other items do not panic. -/
theorem foldlM_reports {α σ : Type} {step : σ → α → Fallible σ} {as : List α}
    (hstep : ∀ a s, (∃ s', step s a = .ok s') ∨ Reports (step s a))
    (hbad : ∃ a ∈ as, ∀ s, Reports (step s a)) (s : σ) : Reports (as.foldlM step s) := by
  induction as generalizing s with
  | nil =>
      obtain ⟨a, ha, -⟩ := hbad
      exact absurd ha List.not_mem_nil
  | cons first rest ih =>
      rw [List.foldlM_cons]
      obtain ⟨s', hok⟩ | hreports := hstep first s
      · rw [hok, Fallible.bind_ok]
        apply ih
        obtain ⟨a, ha, hall⟩ := hbad
        obtain rfl | hrest := List.mem_cons.mp ha
        · obtain ⟨message, herror⟩ := hall s
          rw [hok] at herror
          cases herror
        · exact ⟨a, hrest, hall⟩
      · obtain ⟨message, herror⟩ := hreports
        exact ⟨message, by rw [herror]; rfl⟩

theorem mergeFile_reports {fileProps : List GnuProperty}
    (h : ¬ ∀ prop ∈ fileProps, (arch.getPropertyClass prop.ptype).isSome = true) :
    Reports (mergeFile arch display fileProps) := by
  rw [not_forall₂] at h
  obtain ⟨prop, hprop, hnone⟩ := h
  apply foldlM_reports
  · intro prop fileMap
    rw [classify]
    cases arch.getPropertyClass prop.ptype with
    | none => exact .inr ⟨_, rfl⟩
    | some propertyClass => exact .inl ⟨_, rfl⟩
  · refine ⟨prop, hprop, fun fileMap => ?_⟩
    rw [classify, Option.not_isSome_iff_eq_none.mp hnone]
    exact ⟨_, rfl⟩

/-- A type that the architecture does not know is an error. -/
theorem mergeGnuPropertyNotes_unclassified {files : List (List GnuProperty)}
    (h : ¬ AllClassified arch files) (iteration : Iteration UInt32 (UInt32 × PropertyClass))
    (isaNeeded : Option UInt32) :
    ∃ message, mergeGnuPropertyNotes arch display iteration files isaNeeded =
      .error (.error message) := by
  have hbad : ∃ fileProps ∈ files,
      ¬ ∀ prop ∈ fileProps, (arch.getPropertyClass prop.ptype).isSome = true := by
    rw [AllClassified, not_forall₂] at h
    obtain ⟨fileProps, hfile, hbad⟩ := h
    exact ⟨fileProps, hfile, hbad⟩
  suffices hloop : Reports (files.foldlM (fun propertyMap fileProps => do
      let fileMap ← mergeFile arch display fileProps
      .ok ((fileMap.reorder iteration).entries.foldl
        (fun propertyMap entry => propertyMap.update entry.1 (mergeEntry entry)) propertyMap))
      (HashTable.empty : PropertyMap)) by
    obtain ⟨message, hmessage⟩ := hloop
    exact ⟨message, by rw [mergeGnuPropertyNotes, hmessage]; rfl⟩
  apply foldlM_reports
  · intro fileProps propertyMap
    by_cases hclassified : ∀ prop ∈ fileProps, (arch.getPropertyClass prop.ptype).isSome = true
    · rw [mergeFile_eq_ok hclassified]
      exact .inl ⟨_, rfl⟩
    · obtain ⟨message, hmessage⟩ := @mergeFile_reports arch display _ hclassified
      rw [hmessage]
      exact .inr ⟨message, rfl⟩
  · obtain ⟨fileProps, hfile, hunclassified⟩ := hbad
    refine ⟨fileProps, hfile, fun propertyMap => ?_⟩
    obtain ⟨message, hmessage⟩ := @mergeFile_reports arch display _ hunclassified
    rw [hmessage]
    exact ⟨message, rfl⟩

/-- Files in another order have the same properties. -/
theorem merged_perm {files files' : List (List GnuProperty)} (h : files.Perm files')
    (isaNeeded : Option UInt32) (note : GnuProperty) :
    Merged arch files isaNeeded note ↔ Merged arch files' isaNeeded note := by
  have hbits := h.map (bitsOf note.ptype)
  have hor : orBits (files.map (bitsOf note.ptype)) = orBits (files'.map (bitsOf note.ptype)) :=
    hbits.foldl_op_eq
  have hand : andBits (files.map (bitsOf note.ptype)) = andBits (files'.map (bitsOf note.ptype)) :=
    hbits.foldl_op_eq
  have hpresent : PresentInAll files note.ptype ↔ PresentInAll files' note.ptype := by
    have hnil : files = [] ↔ files' = [] :=
      ⟨fun heq => (heq ▸ h).nil_eq.symm, fun heq => List.perm_nil.mp (heq ▸ h)⟩
    rw [PresentInAll, PresentInAll, ne_eq, ne_eq, hnil]
    simp only [h.mem_iff]
  rw [Merged, Merged, hor, hand, hpresent]

end Collected

/-- The merged properties are those of the definition, in increasing order of their types and once
each, whatever the order of the objects. Types that the architecture does not know are reported. -/
theorem mergeGnuPropertyNotes_exact (arch : Architecture) (display : UInt32 → String)
    (iteration : Iteration UInt32 (UInt32 × PropertyClass)) (files : List (List GnuProperty))
    (isaNeeded : Option UInt32) :
    (AllClassified arch files → ∃ notes,
        mergeGnuPropertyNotes arch display iteration files isaNeeded = .ok notes ∧
        (notes.Pairwise fun a b => a.ptype < b.ptype) ∧
        (∀ note, note ∈ notes ↔ Merged arch files isaNeeded note) ∧
        ∀ (iteration' : Iteration UInt32 (UInt32 × PropertyClass)) (files' : List (List GnuProperty)),
          files'.Perm files →
            mergeGnuPropertyNotes arch display iteration' files' isaNeeded = .ok notes) ∧
      (¬ AllClassified arch files → ∃ message,
        mergeGnuPropertyNotes arch display iteration files isaNeeded = .error (.error message)) := by
  refine ⟨fun hclassified => ⟨_, mergeGnuPropertyNotes_eq_ok hclassified iteration isaNeeded,
    pairwise_output files _ iteration, fun note => ?_, fun iteration' files' hperm => ?_⟩,
    fun h => mergeGnuPropertyNotes_unclassified h iteration isaNeeded⟩
  · rw [mem_output]
    exact output_iff_merged hclassified iteration isaNeeded note
  · have hclassified' : AllClassified arch files' := fun fileProps hfile =>
      hclassified fileProps (hperm.mem_iff.mp hfile)
    have hsorted := pairwise_output files (addIsaNeeded isaNeeded
      (collected arch iteration files .empty)) iteration
    have hsorted' := pairwise_output files' (addIsaNeeded isaNeeded
      (collected arch iteration' files' .empty)) iteration'
    rw [mergeGnuPropertyNotes_eq_ok hclassified' iteration' isaNeeded]
    congr 1
    apply List.Perm.eq_of_pairwise (fun a b _ _ hab hba => absurd hab (UInt32.lt_asymm hba)) hsorted'
      hsorted
    have hne : ∀ {a b : GnuProperty}, a.ptype < b.ptype → a ≠ b := by
      intro a b h heq
      rw [heq] at h
      exact UInt32.lt_irrefl _ h
    rw [List.perm_ext_iff_of_nodup (hsorted'.imp hne) (hsorted.imp hne)]
    intro note
    rw [mem_output, mem_output, output_iff_merged hclassified', output_iff_merged hclassified]
    exact merged_perm hperm isaNeeded note

/-- An object with one feature, and one with more. -/
theorem mergeGnuPropertyNotes_exact_pair :
    ∃ notes, mergeGnuPropertyNotes .x86_64 toString ⟨id, fun _ => .refl _⟩
        [[⟨0xc0000002, 2⟩, ⟨0xc0000002, 1⟩], [⟨0xc0000002, 1⟩, ⟨0xc0008002, 4⟩]] none = .ok notes ∧
      ⟨0xc0000002, 1⟩ ∈ notes ∧ ⟨0xc0008002, 4⟩ ∈ notes := by
  obtain ⟨notes, hok, -, hmem, -⟩ := (mergeGnuPropertyNotes_exact .x86_64 toString
    ⟨id, fun _ => .refl _⟩ [[⟨0xc0000002, 2⟩, ⟨0xc0000002, 1⟩], [⟨0xc0000002, 1⟩, ⟨0xc0008002, 4⟩]]
    none).1 (by simp [AllClassified, Architecture.getPropertyClass])
  refine ⟨notes, hok, (hmem _).mpr ?_, (hmem _).mpr ?_⟩
  · refine ⟨⟨by decide, ?_⟩, by decide, by decide⟩
    simp [HasType]
  · exact ⟨by decide, by decide⟩

end JdxLinker.Elf
