import JdxLinker.SymbolVersion.Library

/-!
# The versions of a version script

A script is a body without a name, or versions with names, each of which may name a parent. The
parser looks a parent up among the versions before it, after a base version without a name.
-/

namespace JdxLinker.SymbolVersion

/-- A version of a script. Its patterns play no role in the version definitions. -/
structure Version where
  name : List UInt8
  parentIndex : Option UInt16
  deriving Repr, DecidableEq

/-- A script with versions, or one that only lists the global symbols. -/
inductive VersionScript where
  | regular (versions : List Version)
  | rust
  deriving Repr, DecidableEq

/-- A version as it is in the text of a script, with what is between its body and the semicolon. -/
structure VersionText where
  name : List UInt8
  parentName : List UInt8
  deriving Repr, DecidableEq

/-- What a version script consists of. A lone body can be one that Rust writes. -/
inductive ScriptText where
  | absent
  | body (rustLike : Bool)
  | versions (texts : List VersionText)
  deriving Repr, DecidableEq

/-! ### Parsing -/

/-- The base version, which has no name. -/
def Version.base : Version := ⟨[], none⟩

/-- The index of a parent among the names of the versions so far. -/
def parseParent (versionNames : List (List UInt8)) (parentName : List UInt8) :
    Fallible (Option UInt16) :=
  if parentName.isEmpty then
    .ok none
  else do
    let index ← Fallible.context (versionNames.idxOf? parentName) "Unknown parent version"
    .ok (some (UInt16.ofNat index))

def parseVersions (versions : List Version) : List VersionText → Fallible (List Version)
  | [] => .ok versions
  | text :: texts => do
      let parentIndex ← parseParent (versions.map Version.name) text.parentName
      parseVersions (versions ++ [⟨text.name, parentIndex⟩]) texts

def parseVersionScript : ScriptText → Fallible VersionScript
  | .absent => .ok (.regular [])
  | .body rustLike => .ok (if rustLike then .rust else .regular [Version.base])
  | .versions texts => do
      let versions ← parseVersions [Version.base] texts
      .ok (.regular versions)

/-! ### Counts -/

namespace VersionScript

/-- The number of versions with the base version, unless it is the only one. -/
def versionCount : VersionScript → UInt16
  | regular versions => scriptVersionCount versions.length
  | rust => 0

def parentCount : VersionScript → UInt16
  | regular versions => UInt16.ofNat (versions.countP fun version => version.parentIndex.isSome)
  | rust => 0

end VersionScript

/-! ### What the parser accepts -/

/-- A version after it was parsed, behind `before` other versions. -/
structure Parses (versions : List Version) (before : Nat) (text : VersionText)
    (version : Version) : Prop where
  name : version.name = text.name
  orphan : text.parentName = [] → version.parentIndex = none
  parent : text.parentName ≠ [] → ∃ parent < before,
    version.parentIndex = some (UInt16.ofNat parent) ∧
      versions[parent]?.map Version.name = some text.parentName

theorem Parses.isSome_parentIndex {versions : List Version} {before : Nat} {text : VersionText}
    {version : Version} (h : Parses versions before text version) :
    version.parentIndex.isSome = !text.parentName.isEmpty := by
  cases hparent : text.parentName with
  | nil =>
      rw [h.orphan hparent]
      rfl
  | cons byte bytes =>
      obtain ⟨parent, -, hindex, -⟩ := h.parent (by rw [hparent]; exact List.cons_ne_nil _ _)
      rw [hindex]
      rfl

theorem parseParent_eq_ok {versions : List Version} {text : VersionText} {parentIndex : Option UInt16}
    (h : parseParent (versions.map Version.name) text.parentName = .ok parentIndex) :
    Parses versions versions.length text ⟨text.name, parentIndex⟩ := by
  rw [parseParent] at h
  cases hparent : text.parentName with
  | nil =>
      rw [hparent] at h
      cases h
      exact ⟨rfl, fun _ => rfl, fun hne => absurd hparent hne⟩
  | cons byte bytes =>
      rw [hparent, List.isEmpty_cons, if_neg Bool.false_ne_true] at h
      obtain ⟨index, hindex, hok⟩ := Fallible.bind_eq_ok.mp h
      cases hok
      obtain ⟨hlt, hget, -⟩ := List.findIdx?_eq_some_iff_getElem.mp (Fallible.context_eq_ok.mp hindex)
      rw [List.length_map] at hlt
      refine ⟨rfl, fun hnil => absurd (hparent.symm.trans hnil) (List.cons_ne_nil _ _),
        fun _ => ⟨index, hlt, rfl, ?_⟩⟩
      rw [List.getElem_map, beq_iff_eq] at hget
      rw [List.getElem?_eq_getElem hlt, Option.map_some, hget, hparent]

theorem getElem?_of_leading {versions all : List Version} (hle : versions <+: all) {i : Nat}
    {version : Version} (h : versions[i]? = some version) : all[i]? = some version := by
  obtain ⟨rest, rfl⟩ := hle
  obtain ⟨hlt, -⟩ := List.getElem?_eq_some_iff.mp h
  rw [List.getElem?_append_left hlt, h]

theorem Parses.mono {versions all : List Version} {before : Nat} {text : VersionText}
    {version : Version} (h : Parses versions before text version) (hle : versions <+: all) :
    Parses all before text version where
  name := h.name
  orphan := h.orphan
  parent hne := by
    obtain ⟨parent, hlt, hindex, hname⟩ := h.parent hne
    obtain ⟨version', hget, hname'⟩ := Option.map_eq_some_iff.mp hname
    refine ⟨parent, hlt, hindex, ?_⟩
    rw [getElem?_of_leading hle hget, Option.map_some, hname']

/-- The versions that are parsed are those of the text, in its order. -/
theorem parseVersions_eq_ok {versions all : List Version} {texts : List VersionText}
    (h : parseVersions versions texts = .ok all) :
    versions <+: all ∧ all.length = versions.length + texts.length ∧
      ∀ i text, texts[i]? = some text → ∃ version, all[versions.length + i]? = some version ∧
        Parses all (versions.length + i) text version := by
  induction texts generalizing versions with
  | nil =>
      cases h
      refine ⟨List.prefix_rfl, rfl, fun i text htext => ?_⟩
      cases htext
  | cons text texts ih =>
      rw [parseVersions] at h
      obtain ⟨parentIndex, hparent, hrest⟩ := Fallible.bind_eq_ok.mp h
      obtain ⟨hleading, hlength, hparses⟩ := ih hrest
      rw [List.length_append, List.length_singleton] at hlength hparses
      have hbefore := (List.prefix_append versions _).trans hleading
      refine ⟨hbefore, by rw [hlength, List.length_cons]; omega, fun i text' htext => ?_⟩
      cases i with
      | zero =>
          cases htext
          refine ⟨_, getElem?_of_leading hleading ?_, (parseParent_eq_ok hparent).mono hbefore⟩
          rw [Nat.add_zero, List.getElem?_concat_length]
      | succ i =>
          obtain ⟨version, hget, hversion⟩ := hparses i text' htext
          rw [Nat.add_assoc, Nat.add_comm 1 i] at hget hversion
          exact ⟨version, hget, hversion⟩

end JdxLinker.SymbolVersion
