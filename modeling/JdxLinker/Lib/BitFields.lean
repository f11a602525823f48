import Mathlib

/-!
# Values stored in scattered bits

A value of which runs of bits are stored at several places of a word. Storing a value and reading it
back are one operation, with the places of the value and of the word exchanged. A word in which the
places of a field are cleared before a value is stored there holds that value, keeps its other bits,
and forgets what was stored before.
-/

namespace JdxLinker.BitFields

/-- A run of bits, from `source` of a value, that is found from `dest` of a word. -/
structure Piece where
  source : Nat
  length : Nat
  dest : Nat
  deriving DecidableEq, Repr

/-- The same run, seen from the word. -/
def Piece.flip (p : Piece) : Piece := ⟨p.dest, p.length, p.source⟩

def Piece.covers (p : Piece) (j : Nat) : Bool := p.dest ≤ j && j < p.dest + p.length

variable {n m : Nat}

/-- The `length` bits from `start`. -/
def bits (x : BitVec n) (start length : Nat) : BitVec n :=
  (x >>> start) &&& BitVec.ofNat n (2 ^ length - 1)

def Piece.store (n : Nat) (p : Piece) (x : BitVec m) : BitVec n :=
  (bits x p.source p.length).setWidth n <<< p.dest

/-- The word that has the runs of a value at their places, and nothing else. -/
def scatter (n : Nat) (ps : List Piece) (x : BitVec m) : BitVec n :=
  ps.foldr (fun p word => p.store n x ||| word) 0#n

/-- The bits of a word that belong to some run. -/
def fieldMask (n : Nat) (ps : List Piece) : BitVec n :=
  BitVec.ofFnLE fun j => ps.any (·.covers j)

/-- A word with a value stored over what it had in the field. -/
def patch (ps : List Piece) (x : BitVec m) (word : BitVec n) : BitVec n :=
  (word &&& ~~~fieldMask n ps) ||| scatter n ps x

/-! ### Bits -/

theorem getLsbD_bits (x : BitVec n) (start length i : Nat) :
    (bits x start length).getLsbD i = (decide (i < length) && x.getLsbD (start + i)) := by
  rw [bits, BitVec.getLsbD_and, BitVec.getLsbD_ushiftRight, BitVec.getLsbD_ofNat,
    Nat.testBit_two_pow_sub_one]
  by_cases hi : i < n
  · rw [decide_eq_true hi, Bool.true_and, Bool.and_comm]
  · rw [BitVec.getLsbD_of_ge x (start + i) (by omega), Bool.false_and, Bool.and_false]

theorem Piece.getLsbD_store (p : Piece) (x : BitVec m) {j : Nat} (hj : j < n) :
    (p.store n x).getLsbD j = (p.covers j && x.getLsbD (p.source + (j - p.dest))) := by
  rw [store, BitVec.getLsbD_shiftLeft, BitVec.getLsbD_setWidth, getLsbD_bits, covers]
  by_cases hlow : j < p.dest
  · simp [hlow, Nat.not_le.mpr hlow]
  · have hlt : j - p.dest < n := by omega
    have hle : p.dest ≤ j := by omega
    have hiff : (j - p.dest < p.length) = (j < p.dest + p.length) := by
      apply propext
      omega
    simp [hj, hlow, hlt, hle, hiff]

theorem getLsbD_scatter (ps : List Piece) (x : BitVec m) {j : Nat} (hj : j < n) :
    (scatter n ps x).getLsbD j =
      ps.any fun p => p.covers j && x.getLsbD (p.source + (j - p.dest)) := by
  induction ps with
  | nil => exact BitVec.getLsbD_zero
  | cons p ps ih =>
      rw [scatter, List.foldr_cons, BitVec.getLsbD_or, ← scatter, ih, p.getLsbD_store x hj,
        List.any_cons]

theorem getLsbD_fieldMask (ps : List Piece) {j : Nat} (hj : j < n) :
    (fieldMask n ps).getLsbD j = ps.any (·.covers j) := by
  rw [fieldMask, BitVec.getLsbD_ofFnLE, dif_pos hj]

theorem getLsbD_patch (ps : List Piece) (x : BitVec m) (word : BitVec n) {j : Nat} (hj : j < n) :
    (patch ps x word).getLsbD j =
      if ps.any (·.covers j) then (scatter n ps x).getLsbD j else word.getLsbD j := by
  rw [patch, BitVec.getLsbD_or, BitVec.getLsbD_and, BitVec.getLsbD_not, getLsbD_fieldMask ps hj,
    getLsbD_scatter ps x hj, decide_eq_true hj]
  cases hcovers : ps.any (·.covers j) with
  | true => simp
  | false =>
      have hnone : (ps.any fun p => p.covers j && x.getLsbD (p.source + (j - p.dest))) = false := by
        rw [List.any_eq_false] at hcovers ⊢
        intro p hp
        simp [hcovers p hp]
      simp [hnone]

/-! ### Reading back -/

/-- A word has the runs of a value at their places. -/
def Holds (ps : List Piece) (x : BitVec m) (word : BitVec n) : Prop :=
  ∀ p ∈ ps, ∀ i < p.length, word.getLsbD (p.dest + i) = x.getLsbD (p.source + i)

/-- The runs fit in the word, and no two of them share a place there. -/
def Apart (n : Nat) (ps : List Piece) : Prop :=
  (∀ p ∈ ps, p.dest + p.length ≤ n) ∧
    ps.Pairwise fun p q => p.dest + p.length ≤ q.dest ∨ q.dest + q.length ≤ p.dest

instance (n : Nat) (ps : List Piece) : Decidable (Apart n ps) := by
  unfold Apart
  infer_instance

theorem Apart.eq_of_covers {ps : List Piece} (h : Apart n ps) {p q : Piece} (hp : p ∈ ps)
    (hq : q ∈ ps) {j : Nat} (hpj : p.covers j = true) (hqj : q.covers j = true) : p = q := by
  by_contra hne
  have hsymm : Std.Symm fun p q : Piece =>
      p.dest + p.length ≤ q.dest ∨ q.dest + q.length ≤ p.dest := ⟨fun _ _ h => h.symm⟩
  have hapart := h.2.forall hp hq hne
  simp only [Piece.covers, Bool.and_eq_true, decide_eq_true_eq] at hpj hqj
  omega

theorem scatter_holds {ps : List Piece} (h : Apart n ps) (x : BitVec m) :
    Holds ps x (scatter n ps x) := by
  intro p hp i hi
  have hfit := h.1 p hp
  have hcovers : p.covers (p.dest + i) = true := by simp [Piece.covers, hi]
  rw [getLsbD_scatter ps x (by omega)]
  cases hbit : x.getLsbD (p.source + i) with
  | true =>
      rw [List.any_eq_true]
      refine ⟨p, hp, ?_⟩
      rw [hcovers, Nat.add_sub_cancel_left, hbit]
      rfl
  | false =>
      rw [List.any_eq_false]
      intro q hq hand
      rw [Bool.and_eq_true] at hand
      obtain rfl := h.eq_of_covers hp hq hcovers hand.1
      rw [Nat.add_sub_cancel_left, hbit] at hand
      exact Bool.false_ne_true hand.2

theorem patch_holds {ps : List Piece} (h : Apart n ps) (x : BitVec m) (word : BitVec n) :
    Holds ps x (patch ps x word) := by
  intro p hp i hi
  have hfit := h.1 p hp
  have hcovers : (ps.any fun q => q.covers (p.dest + i)) = true :=
    List.any_eq_true.mpr ⟨p, hp, by simp [Piece.covers, hi]⟩
  rw [getLsbD_patch ps x word (by omega), if_pos hcovers]
  exact scatter_holds h x p hp i hi

/-- Two values that a word holds agree on the runs. -/
theorem Holds.agree {ps : List Piece} {x y : BitVec m} {word : BitVec n} (hx : Holds ps x word)
    (hy : Holds ps y word) {p : Piece} (hp : p ∈ ps) {i : Nat} (hi : p.flip.covers i = true) :
    x.getLsbD i = y.getLsbD i := by
  rw [Piece.covers, Bool.and_eq_true] at hi
  have hle : p.source ≤ i := of_decide_eq_true hi.1
  have hlt : i < p.source + p.length := of_decide_eq_true hi.2
  have hbit := (hx p hp (i - p.source) (by omega)).symm.trans (hy p hp (i - p.source) (by omega))
  rwa [Nat.add_sub_cancel' hle] at hbit

/-- The runs of a word that are put together hold the word. -/
theorem holds_scatter_flip {ps : List Piece} (h : Apart m (ps.map Piece.flip)) (word : BitVec n) :
    Holds ps (scatter m (ps.map Piece.flip) word) word := by
  intro p hp i hi
  exact (scatter_holds h word p.flip (List.mem_map_of_mem hp) i hi).symm

/-! ### Words of other widths -/

theorem setWidth_scatter_of_le {k : Nat} (h : k ≤ n) (ps : List Piece) (x : BitVec m) :
    (scatter n ps x).setWidth k = scatter k ps x := by
  apply BitVec.eq_of_getLsbD_eq
  intro j hj
  rw [BitVec.getLsbD_setWidth, decide_eq_true hj, Bool.true_and, getLsbD_scatter ps x (by omega),
    getLsbD_scatter ps x hj]

/-- Runs that fit in a narrow word are the same in a wider one. -/
theorem setWidth_scatter {k : Nat} {ps : List Piece} (h : ∀ p ∈ ps, p.dest + p.length ≤ k)
    (x : BitVec m) : (scatter k ps x).setWidth n = scatter n ps x := by
  apply BitVec.eq_of_getLsbD_eq
  intro j hj
  rw [BitVec.getLsbD_setWidth, decide_eq_true hj, Bool.true_and, getLsbD_scatter ps x hj]
  by_cases hjk : j < k
  · rw [getLsbD_scatter ps x hjk]
  · rw [BitVec.getLsbD_of_ge _ j (by omega)]
    symm
    rw [List.any_eq_false]
    intro p hp hand
    rw [Bool.and_eq_true, Piece.covers, Bool.and_eq_true] at hand
    have hlt : j < p.dest + p.length := of_decide_eq_true hand.1.2
    have hfit := h p hp
    omega

/-! ### What a word keeps -/

theorem patch_patch (ps : List Piece) (x y : BitVec m) (word : BitVec n) :
    patch ps y (patch ps x word) = patch ps y word := by
  apply BitVec.eq_of_getLsbD_eq
  intro j hj
  rw [getLsbD_patch ps y _ hj, getLsbD_patch ps y _ hj, getLsbD_patch ps x _ hj]
  split <;> rfl

end JdxLinker.BitFields
