import JdxLinker.Macho.Relocations
import Mathlib.Data.List.Infix

/-!
# Which relocations stand alone

Both walks over the relocations of a section leave out addends and the pairs of a subtrahend and a
minuend. They differ in one case. The writer lets an addend stand between a subtrahend and its
minuend; the collector takes that addend for the minuend, and then the minuend for a relocation of
its own.
-/

namespace JdxLinker.Macho

/-- The relocations that the writer applies on their own. -/
def plainRelocations : Bool → List RelocationInfo → List RelocationInfo
  | _, [] => []
  | pending, rel :: rels =>
      if rel.rType = .addend then plainRelocations pending rels
      else if rel.rType = .subtractor then plainRelocations true rels
      else if pending then plainRelocations false rels
      else rel :: plainRelocations false rels

/-- The relocations that the collector looks at. -/
def collectedRelocations : Bool → List RelocationInfo → List RelocationInfo
  | _, [] => []
  | pending, rel :: rels =>
      if rel.rType = .subtractor then collectedRelocations true rels
      else if pending then collectedRelocations false rels
      else if rel.rType = .addend then collectedRelocations false rels
      else rel :: collectedRelocations false rels

/-- The sequences that the writer accepts: no addend or subtrahend follows another one before the
relocation that it belongs to. -/
def Accepted : Bool → Bool → List RelocationInfo → Prop
  | pendingSubtractor, pendingAddend, [] => pendingSubtractor = false ∧ pendingAddend = false
  | pendingSubtractor, pendingAddend, rel :: rels =>
      if rel.rType = .addend then pendingAddend = false ∧ Accepted pendingSubtractor true rels
      else if rel.rType = .subtractor then
        pendingSubtractor = false ∧ Accepted true pendingAddend rels
      else if pendingSubtractor then Accepted false pendingAddend rels
      else Accepted false false rels

/-- A minuend of a kind stands behind an addend. -/
def Swallows (kind : RelocationInfo → Bool) (rels : List RelocationInfo) : Prop :=
  ∃ subtractor addend minuend, [subtractor, addend, minuend] <:+: rels
    ∧ subtractor.rType = .subtractor ∧ addend.rType = .addend ∧ kind minuend = true

variable {kind : RelocationInfo → Bool}

theorem swallows_cons {rel : RelocationInfo} {rels : List RelocationInfo}
    (h : ∀ addend minuend rest, rel.rType = .subtractor → rels = addend :: minuend :: rest →
      addend.rType = .addend → kind minuend = false) :
    Swallows kind (rel :: rels) ↔ Swallows kind rels := by
  constructor
  · rintro ⟨subtractor, addend, minuend, hinfix, hsub, hadd, hkind⟩
    rcases List.infix_cons_iff.mp hinfix with ⟨rest, hleading⟩ | hinfix
    · obtain ⟨rfl, hrest⟩ := List.cons_eq_cons.mp hleading
      rw [h addend minuend rest hsub hrest.symm hadd] at hkind
      cases hkind
    · exact ⟨subtractor, addend, minuend, hinfix, hsub, hadd, hkind⟩
  · rintro ⟨subtractor, addend, minuend, hinfix, hsub, hadd, hkind⟩
    exact ⟨subtractor, addend, minuend, List.infix_cons_iff.mpr (Or.inr hinfix), hsub, hadd,
      hkind⟩

theorem swallows_cons_of_ne {rel : RelocationInfo} {rels : List RelocationInfo}
    (h : rel.rType ≠ .subtractor) : Swallows kind (rel :: rels) ↔ Swallows kind rels :=
  swallows_cons fun _ _ _ hsub _ _ => absurd hsub h

/-- What the two walks keep of a kind: the same, or the collector more. -/
def Agree (kind : RelocationInfo → Bool) (swallows : Prop) (plain collected : List RelocationInfo) :
    Prop :=
  (¬ swallows → collected.filter kind = plain.filter kind)
    ∧ (swallows → (plain.filter kind).length < (collected.filter kind).length)

theorem Agree.cons {swallows : Prop} {plain collected : List RelocationInfo}
    (h : Agree kind swallows plain collected) (rel : RelocationInfo) :
    Agree kind swallows (rel :: plain) (rel :: collected) := by
  cases hkind : kind rel with
  | true =>
      constructor
      · intro hno
        rw [List.filter_cons_of_pos hkind, List.filter_cons_of_pos hkind, h.1 hno]
      · intro hyes
        rw [List.filter_cons_of_pos hkind, List.filter_cons_of_pos hkind]
        exact Nat.succ_lt_succ (h.2 hyes)
  | false =>
      have hneg : ¬ kind rel = true := by simp [hkind]
      unfold Agree
      rw [List.filter_cons_of_neg hneg, List.filter_cons_of_neg hneg]
      exact h

/-- The collector takes a swallowed minuend of the kind for one that stands alone. -/
theorem Agree.swallow {swallows : Prop} {plain collected : List RelocationInfo}
    (h : Agree kind swallows plain collected) (minuend : RelocationInfo) :
    Agree kind (kind minuend = true ∨ swallows) plain (minuend :: collected) := by
  cases hkind : kind minuend with
  | true =>
      refine ⟨fun hno => absurd (Or.inl rfl) hno, fun _ => ?_⟩
      rw [List.filter_cons_of_pos hkind, List.length_cons]
      by_cases hyes : swallows
      · exact Nat.lt_succ_of_lt (h.2 hyes)
      · rw [h.1 hyes]
        exact Nat.lt_succ_self _
  | false =>
      have hneg : ¬ kind minuend = true := by simp [hkind]
      unfold Agree
      rw [List.filter_cons_of_neg hneg]
      refine ⟨fun hno => h.1 fun hyes => hno (Or.inr hyes), ?_⟩
      rintro (hyes | hyes)
      · cases hyes
      · exact h.2 hyes

theorem swallows_pair {subtractor addend minuend : RelocationInfo} {rels : List RelocationInfo}
    (hsub : subtractor.rType = .subtractor) (hadd : addend.rType = .addend)
    (hminuend : minuend.rType ≠ .subtractor) :
    Swallows kind (subtractor :: addend :: minuend :: rels)
      ↔ kind minuend = true ∨ Swallows kind rels := by
  have hrest : Swallows kind (addend :: minuend :: rels) ↔ Swallows kind rels := by
    rw [swallows_cons_of_ne (by simp [hadd]), swallows_cons_of_ne hminuend]
  constructor
  · rintro ⟨subtractor', addend', minuend', hinfix, hsub', hadd', hkind⟩
    rcases List.infix_cons_iff.mp hinfix with ⟨rest, hleading⟩ | hinfix
    · obtain ⟨-, hleading⟩ := List.cons_eq_cons.mp hleading
      obtain ⟨-, hleading⟩ := List.cons_eq_cons.mp hleading
      obtain ⟨rfl, -⟩ := List.cons_eq_cons.mp hleading
      exact Or.inl hkind
    · exact Or.inr (hrest.mp ⟨subtractor', addend', minuend', hinfix, hsub', hadd', hkind⟩)
  · rintro (hkind | hrels)
    · exact ⟨subtractor, addend, minuend, ⟨[], rels, rfl⟩, hsub, hadd, hkind⟩
    · obtain ⟨subtractor', addend', minuend', hinfix, h⟩ := hrest.mpr hrels
      exact ⟨subtractor', addend', minuend', List.infix_cons_iff.mpr (Or.inr hinfix), h⟩

/-- In an accepted sequence the collector looks at every relocation of a kind that stands alone,
and at others exactly when it swallows a minuend of that kind. -/
theorem collected_agree (kind : RelocationInfo → Bool) :
    ∀ (rels : List RelocationInfo) {pendingAddend : Bool}, Accepted false pendingAddend rels →
      Agree kind (Swallows kind rels) (plainRelocations false rels)
        (collectedRelocations false rels)
  | [], _, _ => by
      refine ⟨fun _ => rfl, ?_⟩
      rintro ⟨_, _, _, hinfix, -⟩
      simp at hinfix
  | rel :: rels, pendingAddend, haccepted => by
      rw [Accepted] at haccepted
      rw [plainRelocations, collectedRelocations]
      by_cases hadd : rel.rType = .addend
      · rw [if_pos hadd] at haccepted
        have hsub : rel.rType ≠ .subtractor := by simp [hadd]
        rw [if_pos hadd, if_neg hsub, if_neg (by simp), if_pos hadd, swallows_cons_of_ne hsub]
        exact collected_agree kind rels haccepted.2
      rw [if_neg hadd] at haccepted
      rw [if_neg hadd]
      by_cases hsub : rel.rType = .subtractor
      · rw [if_pos hsub] at haccepted
        rw [if_pos hsub, if_pos hsub]
        -- What comes next decides whether the two walks pair the same relocations.
        match rels, haccepted.2 with
        | [], hrest => exact absurd hrest.1 (by simp)
        | next :: rels, hrest =>
            rw [Accepted] at hrest
            rw [plainRelocations, collectedRelocations]
            by_cases hnext : next.rType = .addend
            · rw [if_pos hnext] at hrest
              have hnextSub : next.rType ≠ .subtractor := by simp [hnext]
              rw [if_pos hnext, if_neg hnextSub, if_pos rfl]
              match rels, hrest.2 with
              | [], hrest => exact absurd hrest.1 (by simp)
              | minuend :: rels, hrest =>
                  rw [Accepted] at hrest
                  rw [plainRelocations, collectedRelocations]
                  by_cases hminuend : minuend.rType = .addend
                  · rw [if_pos hminuend] at hrest
                    exact absurd hrest.1 (by simp)
                  rw [if_neg hminuend] at hrest
                  by_cases hminuendSub : minuend.rType = .subtractor
                  · rw [if_pos hminuendSub] at hrest
                    exact absurd hrest.1 (by simp)
                  rw [if_neg hminuendSub, if_pos rfl] at hrest
                  rw [if_neg hminuend, if_neg hminuendSub, if_pos rfl, if_neg hminuendSub,
                    if_neg (by simp), if_neg hminuend, swallows_pair hsub hnext hminuendSub]
                  exact (collected_agree kind rels hrest).swallow minuend
            rw [if_neg hnext] at hrest
            by_cases hnextSub : next.rType = .subtractor
            · rw [if_pos hnextSub] at hrest
              exact absurd hrest.1 (by simp)
            rw [if_neg hnextSub, if_pos rfl] at hrest
            rw [if_neg hnext, if_neg hnextSub, if_pos rfl, if_neg hnextSub, if_pos rfl,
              swallows_cons, swallows_cons_of_ne hnextSub]
            · exact collected_agree kind rels hrest
            · intro addend _ _ _ hrels haddend
              obtain ⟨rfl, -⟩ := List.cons_eq_cons.mp hrels
              exact absurd haddend hnext
      · rw [if_neg hsub, if_neg (by simp)] at haccepted
        rw [if_neg hsub, if_neg (by simp), if_neg hsub, if_neg (by simp), if_neg hadd,
          swallows_cons_of_ne hsub]
        exact (collected_agree kind rels haccepted).cons rel

end JdxLinker.Macho
