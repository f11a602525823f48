import Mathlib.Data.UInt
import JdxLinker.Lib.Lists
import JdxLinker.Lib.Bytes
import JdxLinker.Lib.Deletions
import JdxLinker.Lib.Failure

/-!
# Bytes deleted by relaxation

Relaxation deletes bytes of an input section. An input offset is translated by a search among the
deletions, or by a cursor that only moves forward.
-/

namespace JdxLinker.Riscv

structure RelaxDelta where
  inputOffset : UInt64
  cumulativeDeleted : UInt64
  bytesDeleted : UInt32

/-- The deletions of one section, in order of their offsets. -/
structure SectionRelaxDeltas where
  deltas : List RelaxDelta
  sorted : deltas.Pairwise fun d d' => d.inputOffset < d'.inputOffset

def RelaxDelta.isBefore (inputOffset : UInt64) (d : RelaxDelta) : Bool :=
  d.inputOffset < inputOffset

/-- The deletions before an offset. -/
def deltasBefore (deltas : List RelaxDelta) (inputOffset : UInt64) : List RelaxDelta :=
  deltas.takeWhile (RelaxDelta.isBefore inputOffset)

def lastCumulative (deltas : List RelaxDelta) : UInt64 :=
  deltas.getLast?.elim 0 (·.cumulativeDeleted)

namespace SectionRelaxDeltas

/-- Converts an input section offset to the offset in the output section. -/
def inputToOutputOffset (s : SectionRelaxDeltas) (inputOffset : UInt64) : UInt64 :=
  inputOffset - lastCumulative (deltasBefore s.deltas inputOffset)

end SectionRelaxDeltas

def optInputToOutput (deltas : Option SectionRelaxDeltas) (inputOffset : UInt64) : UInt64 :=
  match deltas with
  | some d => d.inputToOutputOffset inputOffset
  | none => inputOffset

/-! ### The cursor -/

/-- The deletions that have not been consumed, and the bytes deleted by those that have. -/
structure RelaxCursor where
  remaining : List RelaxDelta
  currentCumulative : UInt64

namespace RelaxCursor

def start (s : SectionRelaxDeltas) : RelaxCursor := ⟨s.deltas, 0⟩

/-- Advances past all deletions before the offset. -/
def advance (inputOffset : UInt64) : List RelaxDelta → UInt64 → RelaxCursor
  | [], cumulative => ⟨[], cumulative⟩
  | d :: rest, cumulative =>
      if d.inputOffset < inputOffset then advance inputOffset rest d.cumulativeDeleted
      else ⟨d :: rest, cumulative⟩

/-- Translates an input section offset, and where the cursor is then. -/
def translate (cursor : RelaxCursor) (inputOffset : UInt64) : UInt64 × RelaxCursor :=
  let cursor := advance inputOffset cursor.remaining cursor.currentCumulative
  (inputOffset - cursor.currentCumulative, cursor)

/-- The cursor that has passed the deletions before an offset. -/
def passed (deltas : List RelaxDelta) (inputOffset : UInt64) : RelaxCursor :=
  ⟨deltas.dropWhile (RelaxDelta.isBefore inputOffset),
    lastCumulative (deltasBefore deltas inputOffset)⟩

theorem advance_eq (inputOffset : UInt64) (deltas : List RelaxDelta) (cumulative : UInt64) :
    advance inputOffset deltas cumulative =
      ⟨deltas.dropWhile (RelaxDelta.isBefore inputOffset),
        (deltasBefore deltas inputOffset).getLast?.elim cumulative (·.cumulativeDeleted)⟩ := by
  induction deltas generalizing cumulative with
  | nil => rfl
  | cons d rest ih =>
      by_cases hlt : d.inputOffset < inputOffset
      · have hbefore : d.isBefore inputOffset = true := decide_eq_true hlt
        rw [advance, if_pos hlt, ih, deltasBefore, deltasBefore,
          List.takeWhile_cons_of_pos hbefore, List.dropWhile_cons_of_pos hbefore,
          List.getLast?_cons]
        cases (rest.takeWhile (RelaxDelta.isBefore inputOffset)).getLast? <;> rfl
      · have hbefore : ¬ d.isBefore inputOffset = true := by simpa [RelaxDelta.isBefore] using hlt
        rw [advance, if_neg hlt, deltasBefore, List.takeWhile_cons_of_neg hbefore,
          List.dropWhile_cons_of_neg hbefore]
        rfl

theorem isBefore_of_le {m x : UInt64} (h : m ≤ x) (d : RelaxDelta) (hd : d.isBefore m = true) :
    d.isBefore x = true :=
  decide_eq_true (UInt64.lt_of_lt_of_le (of_decide_eq_true hd) h)

/-- A cursor that is moved forward is where it would have been without the earlier move. -/
theorem translate_passed (deltas : List RelaxDelta) {m x : UInt64} (h : m ≤ x) :
    (passed deltas m).translate x =
      (x - lastCumulative (deltasBefore deltas x), passed deltas x) := by
  have hadvance : advance x (passed deltas m).remaining (passed deltas m).currentCumulative =
      passed deltas x := by
    rw [advance_eq, passed, passed, Lists.dropWhile_dropWhile (isBefore_of_le h), lastCumulative,
      lastCumulative, deltasBefore, deltasBefore, deltasBefore,
      Lists.takeWhile_eq_append (isBefore_of_le h) deltas, List.getLast?_append]
    cases ((deltas.dropWhile (RelaxDelta.isBefore m)).takeWhile
      (RelaxDelta.isBefore x)).getLast? <;> rfl
  rw [translate, hadvance]
  rfl

theorem start_eq_passed (s : SectionRelaxDeltas) : start s = passed s.deltas 0 := by
  rw [start, passed, deltasBefore]
  cases s.deltas with
  | nil => rfl
  | cons d rest =>
      have hbefore : ¬ d.isBefore 0 = true := by simp [RelaxDelta.isBefore]
      rw [List.dropWhile_cons_of_neg hbefore, List.takeWhile_cons_of_neg hbefore]
      rfl

end RelaxCursor

end JdxLinker.Riscv

/-!
## The offsets of a relaxed section

The deletions of a section, how they are collected over several passes, and the section that is
written without the deleted bytes. All translations of offsets agree with what is written.
-/

namespace JdxLinker.Riscv

open Bytes Deletions Fallible

/-! ### Collecting deletions -/

/-- Entries for deletions at offsets, on top of the bytes deleted by earlier ones. -/
def newDeltas (running : UInt64) : List (UInt64 × UInt32) → List RelaxDelta
  | [] => []
  | (inputOffset, bytesDeleted) :: raw =>
      let running := running + bytesDeleted.toUInt64
      ⟨inputOffset, running, bytesDeleted⟩ :: newDeltas running raw

theorem newDeltas_raw (running : UInt64) (raw : List (UInt64 × UInt32)) :
    (newDeltas running raw).map (fun d => (d.inputOffset, d.bytesDeleted)) = raw := by
  induction raw generalizing running with
  | nil => rfl
  | cons r raw ih => rw [newDeltas, List.map_cons, ih]

theorem newDeltas_sorted (running : UInt64) {raw : List (UInt64 × UInt32)}
    (h : raw.Pairwise fun r r' => r.1 < r'.1) :
    (newDeltas running raw).Pairwise fun d d' => d.inputOffset < d'.inputOffset := by
  rw [← newDeltas_raw running raw, List.pairwise_map] at h
  exact h

/-- Merges more deletions into the entries, which must not be at offsets that have one. -/
def mergeAdditional (deltas : List RelaxDelta) (additional : List (UInt64 × UInt32)) :
    List RelaxDelta :=
  if additional.isEmpty then deltas
  else newDeltas 0 ((deltas.map (fun d => (d.inputOffset, d.bytesDeleted)) ++ additional).mergeSort
    fun r r' => r.1 ≤ r'.1)

namespace SectionRelaxDeltas

def new (raw : List (UInt64 × UInt32)) (sorted : raw.Pairwise fun r r' => r.1 < r'.1) :
    SectionRelaxDeltas := ⟨newDeltas 0 raw, newDeltas_sorted 0 sorted⟩

def totalDeleted (s : SectionRelaxDeltas) : UInt64 := lastCumulative s.deltas

end SectionRelaxDeltas

/-- Whether a deletion is before an offset of the output section. -/
def RelaxDelta.endsBefore (outputOffset : UInt64) (d : RelaxDelta) : Bool :=
  d.inputOffset + d.bytesDeleted.toUInt64 - d.cumulativeDeleted ≤ outputOffset

/-- Converts an output section offset back to the offset in the input section. -/
def SectionRelaxDeltas.outputToInputOffset (s : SectionRelaxDeltas) (outputOffset : UInt64) :
    UInt64 :=
  outputOffset + lastCumulative (s.deltas.takeWhile (RelaxDelta.endsBefore outputOffset))

/-- The answers of a cursor to one query after another. -/
def RelaxCursor.translateAll : RelaxCursor → List UInt64 → List UInt64
  | _, [] => []
  | cursor, inputOffset :: rest =>
      let (outputOffset, cursor) := cursor.translate inputOffset
      outputOffset :: translateAll cursor rest

/-! ### Writing the section -/

/-- Copies what comes before each deletion. The result is the buffer with the positions that were
reached in the input and in the output. -/
def copyDeltas (input : List UInt8) : List RelaxDelta → List UInt8 → Nat → Nat →
    Fallible (List UInt8 × Nat × Nat)
  | [], out, inputPos, outputPos => .ok (out, inputPos, outputPos)
  | delta :: deltas, out, inputPos, outputPos => do
      let skipStart := delta.inputOffset.toNat
      assert (inputPos ≤ skipStart)
      let copyLen := skipStart - inputPos
      if 0 < copyLen then
        assert (outputPos + copyLen ≤ out.length ∧ skipStart ≤ input.length)
        copyDeltas input deltas (splice out outputPos (slice input inputPos copyLen))
          (skipStart + delta.bytesDeleted.toNat) (outputPos + copyLen)
      else
        copyDeltas input deltas out (skipStart + delta.bytesDeleted.toNat) outputPos

/-- A section with deletions as it is written into a buffer, where `padding` fills what is left. -/
def writeSectionRaw (padding : (len : Nat) → Fin len → UInt8) (deltas : List RelaxDelta)
    (effectiveSize : Nat) (input out : List UInt8) : Fallible (List UInt8) := do
  let (out, inputPos, outputPos) ← copyDeltas input deltas out 0 0
  assert (inputPos ≤ input.length)
  let remaining := input.length - inputPos
  assert (outputPos + remaining ≤ out.length)
  let out := splice out outputPos (input.drop inputPos)
  let outputPos := outputPos + remaining
  let out := out.take outputPos ++ List.ofFn (padding (out.length - outputPos))
  assert (effectiveSize ≤ out.length)
  .ok (out.take effectiveSize)

/-! ### Deletions of a section -/

def deletions (raw : List (UInt64 × UInt32)) : List Deletion :=
  raw.map fun r => ⟨r.1.toNat, r.2.toNat⟩

/-- Deletions of a section of `size` bytes, in order, none of them empty or into the next one. -/
structure SectionDeletions (size : Nat) where
  raw : List (UInt64 × UInt32)
  nonempty : ∀ r ∈ raw, 0 < r.2
  separated : raw.Pairwise fun r r' => r.1.toNat + r.2.toNat ≤ r'.1.toNat
  inSection : ∀ r ∈ raw, r.1.toNat + r.2.toNat ≤ size
  bounded : size < 2 ^ 64

namespace SectionDeletions

variable {size : Nat} (dels : SectionDeletions size)

def list : List Deletion := deletions dels.raw

theorem sorted : dels.raw.Pairwise fun r r' => r.1 < r'.1 := by
  have hpairs := List.Pairwise.and_mem.mp dels.separated
  apply hpairs.imp
  intro r r' h
  have hpos := UInt32.lt_iff_toNat_lt.mp (dels.nonempty r h.1)
  have hzero : (0 : UInt32).toNat = 0 := rfl
  rw [UInt64.lt_iff_toNat_lt]
  have hle := h.2.2
  omega

def deltas : SectionRelaxDeltas := SectionRelaxDeltas.new dels.raw dels.sorted

theorem list_separated : Separated 0 dels.list := by
  rw [separated_iff]
  constructor
  · intro d hd
    obtain ⟨r, hr, rfl⟩ := List.mem_map.mp hd
    have hpos := UInt32.lt_iff_toNat_lt.mp (dels.nonempty r hr)
    exact ⟨Nat.zero_le _, hpos⟩
  · rw [list, deletions, List.pairwise_map]
    exact dels.separated

theorem stop_le : ∀ d ∈ dels.list, d.stop ≤ size := by
  intro d hd
  obtain ⟨r, hr, rfl⟩ := List.mem_map.mp hd
  exact dels.inSection r hr

theorem total_le : total dels.list ≤ size := by
  have hle := dels.list_separated.total_le le_rfl (Nat.zero_le size) dels.stop_le
  omega

end SectionDeletions

/-! ### The searches -/

/-- The bytes that a search counts as deleted, where none overflow. -/
theorem advance_newDeltas (raw : List (UInt64 × UInt32)) {running : UInt64} (x : UInt64)
    (h : running.toNat + total (deletions raw) < 2 ^ 64) :
    (RelaxCursor.advance x (newDeltas running raw) running).currentCumulative.toNat =
      deletedBefore running.toNat (deletions raw) x.toNat := by
  induction raw generalizing running with
  | nil => rfl
  | cons r raw ih =>
      have htotal : total (deletions (r :: raw)) = r.2.toNat + total (deletions raw) := rfl
      have hsum : (running + r.2.toUInt64).toNat = running.toNat + r.2.toNat := by
        rw [UInt64.toNat_add, UInt32.toNat_toUInt64, Nat.mod_eq_of_lt (by omega)]
      rw [newDeltas, RelaxCursor.advance]
      change _ = if r.1.toNat < x.toNat then _ else _
      by_cases hlt : r.1 < x
      · rw [if_pos hlt, if_pos (UInt64.lt_iff_toNat_lt.mp hlt), ih (by omega), hsum]
        rfl
      · rw [if_neg hlt, if_neg (fun hlt' => hlt (UInt64.lt_iff_toNat_lt.mpr hlt'))]

/-- The search back from an output offset, where none of the sums overflow. -/
theorem endsBefore_newDeltas {raw : List (UInt64 × UInt32)} (running : UInt64) {lower : Nat}
    (y : UInt64) (hsep : Separated lower (deletions raw)) (hrunning : running.toNat ≤ lower)
    (hstop : ∀ d ∈ deletions raw, d.stop < 2 ^ 64) :
    (((newDeltas running raw).takeWhile (RelaxDelta.endsBefore y)).getLast?.elim running
        (·.cumulativeDeleted)).toNat = deletedUpTo running.toNat (deletions raw) y.toNat := by
  induction raw generalizing running lower with
  | nil => rfl
  | cons r raw ih =>
      obtain ⟨hstart, hlength, hrest⟩ := hsep
      have hend := hstop _ List.mem_cons_self
      change lower ≤ r.1.toNat at hstart
      change r.1.toNat + r.2.toNat < 2 ^ 64 at hend
      have hsum : (running + r.2.toUInt64).toNat = running.toNat + r.2.toNat := by
        rw [UInt64.toNat_add, UInt32.toNat_toUInt64, Nat.mod_eq_of_lt (by omega)]
      have hends : RelaxDelta.endsBefore y ⟨r.1, running + r.2.toUInt64, r.2⟩ =
          decide (r.1.toNat - running.toNat ≤ y.toNat) := by
        have hsum' : (r.1 + r.2.toUInt64).toNat = r.1.toNat + r.2.toNat := by
          rw [UInt64.toNat_add, UInt32.toNat_toUInt64, Nat.mod_eq_of_lt (by omega)]
        have hle : running + r.2.toUInt64 ≤ r.1 + r.2.toUInt64 := by
          rw [UInt64.le_iff_toNat_le, hsum, hsum']
          omega
        rw [RelaxDelta.endsBefore, decide_eq_decide, UInt64.le_iff_toNat_le,
          UInt64.toNat_sub_of_le _ _ hle, hsum, hsum']
        omega
      rw [newDeltas, List.takeWhile_cons, hends]
      change _ = if r.1.toNat - running.toNat ≤ y.toNat then _ else _
      by_cases hle : r.1.toNat - running.toNat ≤ y.toNat
      · have hle' : (running + r.2.toUInt64).toNat ≤ r.1.toNat + r.2.toNat := by
          rw [hsum]
          omega
        have hstep := ih _ hrest hle' (fun d hd => hstop d (List.mem_cons_of_mem _ hd))
        rw [if_pos hle, if_pos (decide_eq_true hle), List.getLast?_cons, ← hsum]
        refine Eq.trans ?_ hstep
        cases ((newDeltas (running + r.2.toUInt64) raw).takeWhile
          (RelaxDelta.endsBefore y)).getLast? <;> rfl
      · rw [if_neg hle, if_neg (by simpa using hle)]
        rfl

namespace SectionDeletions

variable {size : Nat} (dels : SectionDeletions size)

/-- A byte of the input section that is not deleted. -/
def Keeps (x : UInt64) : Prop := Kept dels.list x.toNat

/-- The translation is that of the deletions, as long as no byte is asked for that is deleted. -/
theorem inputToOutputOffset_toNat {x : UInt64} (hx : dels.Keeps x) :
    (dels.deltas.inputToOutputOffset x).toNat = toOutput 0 dels.list x.toNat := by
  have hbound := dels.bounded
  have htotal := dels.total_le
  have hfit : (0 : UInt64).toNat + total (deletions dels.raw) < 2 ^ 64 := by
    change 0 + total dels.list < 2 ^ 64
    omega
  have hadvance := advance_newDeltas dels.raw x hfit
  have hle := deletedBefore_le dels.list_separated le_rfl (Nat.zero_le _) hx
  rw [RelaxCursor.advance_eq] at hadvance
  change (lastCumulative (deltasBefore dels.deltas.deltas x)).toNat = deletedBefore 0 dels.list _
    at hadvance
  rw [SectionRelaxDeltas.inputToOutputOffset, UInt64.toNat_sub_of_le, hadvance]
  · rfl
  · rw [UInt64.le_iff_toNat_le, hadvance]
    omega

theorem outputToInputOffset_toNat {y : UInt64} (hy : toInput 0 dels.list y.toNat < 2 ^ 64) :
    (dels.deltas.outputToInputOffset y).toNat = toInput 0 dels.list y.toNat := by
  have hsearch := endsBefore_newDeltas 0 y dels.list_separated le_rfl
    (fun d hd => lt_of_le_of_lt (dels.stop_le d hd) dels.bounded)
  change (lastCumulative (dels.deltas.deltas.takeWhile (RelaxDelta.endsBefore y))).toNat =
    deletedUpTo 0 dels.list _ at hsearch
  rw [SectionRelaxDeltas.outputToInputOffset, UInt64.toNat_add, hsearch]
  exact Nat.mod_eq_of_lt hy

theorem translateAll_eq {m : UInt64} {offsets : List UInt64}
    (hsorted : (m :: offsets).Pairwise (· ≤ ·)) :
    (RelaxCursor.passed dels.deltas.deltas m).translateAll offsets =
      offsets.map dels.deltas.inputToOutputOffset := by
  induction offsets generalizing m with
  | nil => rfl
  | cons x offsets ih =>
      have hmx : m ≤ x := (List.pairwise_cons.mp hsorted).1 x List.mem_cons_self
      rw [RelaxCursor.translateAll, RelaxCursor.translate_passed dels.deltas.deltas hmx,
        List.map_cons]
      change _ :: (RelaxCursor.passed dels.deltas.deltas x).translateAll offsets = _
      rw [ih (List.pairwise_cons.mp hsorted).2]
      rfl

end SectionDeletions

/-! ### Deletions that are found in several passes -/

/-- Deletions at different offsets have one order. -/
theorem eq_of_perm_of_sorted {raw raw' : List (UInt64 × UInt32)} (h : raw.Perm raw')
    (hsorted : raw.Pairwise fun r r' => r.1 < r'.1)
    (hsorted' : raw'.Pairwise fun r r' => r.1 < r'.1) : raw = raw' := by
  apply h.eq_of_pairwise _ hsorted hsorted'
  intro r r' _ _ hlt hlt'
  exact absurd (UInt64.lt_trans hlt hlt') (UInt64.lt_irrefl r.1)

/-- A merge has the entries of both, in the order of their offsets. -/
theorem mergeAdditional_newDeltas {raw additional : List (UInt64 × UInt32)}
    (hdistinct : (raw ++ additional).Pairwise fun r r' => r.1 ≠ r'.1)
    (hsorted : raw.Pairwise fun r r' => r.1 < r'.1) :
    ∃ merged, mergeAdditional (newDeltas 0 raw) additional = newDeltas 0 merged ∧
      merged.Perm (raw ++ additional) ∧ merged.Pairwise fun r r' => r.1 < r'.1 := by
  rw [mergeAdditional]
  cases hempty : additional.isEmpty with
  | true =>
      obtain rfl := List.isEmpty_iff.mp hempty
      exact ⟨raw, rfl, by rw [List.append_nil], hsorted⟩
  | false =>
      have hperm := (raw ++ additional).mergeSort_perm fun r r' => decide (r.1 ≤ r'.1)
      refine ⟨_, by rw [newDeltas_raw]; rfl, hperm, ?_⟩
      have hle : ((raw ++ additional).mergeSort fun r r' => decide (r.1 ≤ r'.1)).Pairwise
          fun r r' => decide (r.1 ≤ r'.1) = true := by
        apply List.pairwise_mergeSort
        · intro a b c hab hbc
          rw [decide_eq_true_eq] at hab hbc ⊢
          exact UInt64.le_trans hab hbc
        · intro a b
          rw [Bool.or_eq_true, decide_eq_true_eq, decide_eq_true_eq]
          exact UInt64.le_total a.1 b.1
      have hne := hdistinct.perm hperm.symm fun h => h.symm
      apply (hle.and hne).imp
      intro r r' h
      exact UInt64.lt_of_le_of_ne (of_decide_eq_true h.1) h.2

namespace SectionDeletions

variable {size : Nat} (dels : SectionDeletions size)

/-- However the deletions are split among passes, the last pass has all of them. -/
theorem merged_eq {first : List (UInt64 × UInt32)} {parts : List (List (UInt64 × UInt32))}
    (hsorted : first.Pairwise fun r r' => r.1 < r'.1)
    (hperm : (first ++ parts.flatten).Perm dels.raw) :
    parts.foldl mergeAdditional (newDeltas 0 first) = dels.deltas.deltas := by
  induction parts generalizing first with
  | nil =>
      rw [List.flatten_nil, List.append_nil] at hperm
      rw [List.foldl_nil, eq_of_perm_of_sorted hperm hsorted dels.sorted]
      rfl
  | cons part parts ih =>
      rw [List.flatten_cons, ← List.append_assoc] at hperm
      have hdistinct : (first ++ part ++ parts.flatten).Pairwise fun r r' => r.1 ≠ r'.1 := by
        have hall : dels.raw.Pairwise fun r r' => r.1 ≠ r'.1 :=
          dels.sorted.imp fun h => UInt64.ne_of_lt h
        exact hall.perm hperm.symm fun h => h.symm
      obtain ⟨merged, hmerge, hmerged, hsorted'⟩ :=
        mergeAdditional_newDeltas (List.pairwise_append.mp hdistinct).1 hsorted
      rw [List.foldl_cons, hmerge]
      exact ih hsorted' ((hmerged.append_right parts.flatten).trans hperm)

end SectionDeletions

/-! ### The section that is written -/

theorem take_splice {buffer bytes : List UInt8} {offset : Nat}
    (h : offset + bytes.length ≤ buffer.length) :
    (splice buffer offset bytes).take (offset + bytes.length) = buffer.take offset ++ bytes := by
  have hlen : (buffer.take offset ++ bytes).length = offset + bytes.length := by
    rw [List.length_append, List.length_take]
    omega
  rw [splice, ← hlen, List.take_left']
  rfl

/-- What was copied before stays, and what is kept of the rest follows. -/
theorem copyDeltas_eq_ok {input : List UInt8} {raw : List (UInt64 × UInt32)} (running : UInt64)
    {out : List UInt8} {inputPos outputPos : Nat} (hsep : Separated inputPos (deletions raw))
    (hstop : ∀ d ∈ deletions raw, d.stop ≤ input.length) (hinput : inputPos ≤ input.length)
    (hroom : outputPos + (keep input inputPos (deletions raw)).length ≤ out.length) :
    ∃ out' inputPos' outputPos', copyDeltas input (newDeltas running raw) out inputPos outputPos =
        .ok (out', inputPos', outputPos') ∧ out'.length = out.length ∧
      inputPos' ≤ input.length ∧
      outputPos' + (input.length - inputPos') =
        outputPos + (keep input inputPos (deletions raw)).length ∧
      out'.take outputPos' ++ input.drop inputPos' =
        out.take outputPos ++ keep input inputPos (deletions raw) := by
  induction raw generalizing running out inputPos outputPos with
  | nil =>
      refine ⟨out, inputPos, outputPos, rfl, rfl, hinput, ?_, rfl⟩
      change _ = outputPos + (input.drop inputPos).length
      rw [List.length_drop]
  | cons r raw ih =>
      obtain ⟨hstart, hlength, hrest⟩ := hsep
      have hend := hstop _ List.mem_cons_self
      change inputPos ≤ r.1.toNat at hstart
      change r.1.toNat + r.2.toNat ≤ input.length at hend
      have hkeep : keep input inputPos (deletions (r :: raw)) =
          slice input inputPos (r.1.toNat - inputPos) ++
            keep input (r.1.toNat + r.2.toNat) (deletions raw) := rfl
      have hslice : (slice input inputPos (r.1.toNat - inputPos)).length =
          r.1.toNat - inputPos := by
        rw [slice, List.length_take, List.length_drop]
        omega
      rw [hkeep, List.length_append, hslice] at hroom ⊢
      have hih := fun (out : List UInt8) (outputPos : Nat) =>
        @ih (running + r.2.toUInt64) out (r.1.toNat + r.2.toNat) outputPos hrest
          (fun d hd => hstop d (List.mem_cons_of_mem _ hd)) hend
      rw [newDeltas, copyDeltas, assert, if_pos hstart, bind_ok]
      by_cases hcopy : 0 < r.1.toNat - inputPos
      · have hfit : outputPos + (slice input inputPos (r.1.toNat - inputPos)).length ≤
            out.length := by
          rw [hslice]
          omega
        have hspliced := splice_length hfit
        obtain ⟨out', inputPos', outputPos', hrun, hlen, hpos, hcount, htake⟩ :=
          hih (splice out outputPos (slice input inputPos (r.1.toNat - inputPos)))
            (outputPos + (r.1.toNat - inputPos)) (by rw [hspliced]; omega)
        refine ⟨out', inputPos', outputPos', ?_, hlen.trans hspliced, hpos, by omega, ?_⟩
        · have hbounds : outputPos + (r.1.toNat - inputPos) ≤ out.length ∧
              r.1.toNat ≤ input.length := ⟨by omega, by omega⟩
          rw [if_pos hcopy, assert, if_pos hbounds, bind_ok]
          exact hrun
        · have htaken := take_splice hfit
          rw [hslice] at htaken
          rw [htake, htaken, List.append_assoc]
      · have hnil : slice input inputPos (r.1.toNat - inputPos) = [] :=
          List.eq_nil_of_length_eq_zero (by omega)
        obtain ⟨out', inputPos', outputPos', hrun, hlen, hpos, hcount, htake⟩ :=
          hih out outputPos (by omega)
        refine ⟨out', inputPos', outputPos', ?_, hlen, hpos, by omega, ?_⟩
        · rw [if_neg hcopy]
          exact hrun
        · rw [htake, hnil, List.nil_append]

theorem lastCumulative_newDeltas {raw : List (UInt64 × UInt32)} {running : UInt64}
    (h : running.toNat + total (deletions raw) < 2 ^ 64) :
    ((newDeltas running raw).getLast?.elim running (·.cumulativeDeleted)).toNat =
      running.toNat + total (deletions raw) := by
  induction raw generalizing running with
  | nil => rfl
  | cons r raw ih =>
      have htotal : total (deletions (r :: raw)) = r.2.toNat + total (deletions raw) := rfl
      have hsum : (running + r.2.toUInt64).toNat = running.toNat + r.2.toNat := by
        rw [UInt64.toNat_add, UInt32.toNat_toUInt64, Nat.mod_eq_of_lt (by omega)]
      have hstep := @ih (running + r.2.toUInt64) (by omega)
      rw [newDeltas, List.getLast?_cons, htotal, ← Nat.add_assoc, ← hsum, ← hstep]
      cases (newDeltas (running + r.2.toUInt64) raw).getLast? <;> rfl

namespace SectionDeletions

variable {size : Nat} (dels : SectionDeletions size)

theorem totalDeleted_toNat : dels.deltas.totalDeleted.toNat = total dels.list := by
  have hbound := dels.bounded
  have htotal := dels.total_le
  have hfit : (0 : UInt64).toNat + total (deletions dels.raw) < 2 ^ 64 := by
    change 0 + total dels.list < 2 ^ 64
    omega
  have hlast := lastCumulative_newDeltas hfit
  change _ = 0 + total dels.list at hlast
  rw [Nat.zero_add] at hlast
  exact hlast

/-- The section that is written has the bytes that are kept. -/
theorem writeSectionRaw_eq {input : List UInt8} (dels : SectionDeletions input.length)
    (padding : (len : Nat) → Fin len → UInt8) {out : List UInt8}
    (hroom : input.length - dels.deltas.totalDeleted.toNat ≤ out.length) :
    writeSectionRaw padding dels.deltas.deltas
        (input.length - dels.deltas.totalDeleted.toNat) input out =
      .ok (keep input 0 dels.list) := by
  have hkeep := keep_length input dels.list_separated (Nat.zero_le _) dels.stop_le
  rw [dels.totalDeleted_toNat] at hroom ⊢
  have hlen : (keep input 0 dels.list).length = input.length - total dels.list := by omega
  obtain ⟨out', inputPos', outputPos', hrun, hlength, hpos, hcount, htake⟩ :=
    copyDeltas_eq_ok 0 dels.list_separated dels.stop_le (Nat.zero_le _)
      (by change 0 + (keep input 0 dels.list).length ≤ out.length; omega)
  change _ = 0 + (keep input 0 dels.list).length at hcount
  change _ = [] ++ keep input 0 dels.list at htake
  have hdrop : (input.drop inputPos').length = input.length - inputPos' := List.length_drop
  have hfit : outputPos' + (input.drop inputPos').length ≤ out'.length := by omega
  have htaken := take_splice hfit
  have hspliced := splice_length hfit
  rw [hdrop] at htaken
  rw [List.nil_append] at htake
  rw [writeSectionRaw]
  change copyDeltas input dels.deltas.deltas out 0 0 = _ at hrun
  have hroom' : outputPos' + (input.length - inputPos') ≤ out'.length := by omega
  rw [hrun, bind_ok]
  simp only [assert, if_pos hpos, if_pos hroom', bind_ok, htaken, htake]
  rw [if_pos (by rw [List.length_append]; omega), bind_ok, ← hlen, List.take_left]

/-- All that is said of the translations of offsets. -/
structure MapsAgree : Prop where
  increasing : ∀ x x', dels.Keeps x → dels.Keeps x' → x < x' →
    dels.deltas.inputToOutputOffset x < dels.deltas.inputToOutputOffset x'
  gapless : ∀ y : UInt64, y.toNat < size - dels.deltas.totalDeleted.toNat ↔
    ∃ x, x.toNat < size ∧ dels.Keeps x ∧ dels.deltas.inputToOutputOffset x = y
  inverse : ∀ x, dels.Keeps x →
    dels.deltas.outputToInputOffset (dels.deltas.inputToOutputOffset x) = x
  inverse' : ∀ y : UInt64, y.toNat + dels.deltas.totalDeleted.toNat < 2 ^ 64 →
    dels.deltas.inputToOutputOffset (dels.deltas.outputToInputOffset y) = y
  cursor : ∀ offsets : List UInt64, offsets.Pairwise (· ≤ ·) →
    (RelaxCursor.start dels.deltas).translateAll offsets =
      offsets.map dels.deltas.inputToOutputOffset
  merged : ∀ (first : List (UInt64 × UInt32)) (parts : List (List (UInt64 × UInt32))),
    (first.Pairwise fun r r' => r.1 < r'.1) → (first ++ parts.flatten).Perm dels.raw →
      parts.foldl mergeAdditional (newDeltas 0 first) = dels.deltas.deltas
  written : ∀ (input out : List UInt8) (padding : (len : Nat) → Fin len → UInt8),
    input.length = size → size - dels.deltas.totalDeleted.toNat ≤ out.length →
      ∃ written, writeSectionRaw padding dels.deltas.deltas
          (size - dels.deltas.totalDeleted.toNat) input out = .ok written ∧
        ∀ x, dels.Keeps x → written[(dels.deltas.inputToOutputOffset x).toNat]? = input[x.toNat]?

theorem toInput_spec {y : UInt64} (hy : y.toNat + total dels.list < 2 ^ 64) :
    (dels.deltas.outputToInputOffset y).toNat = toInput 0 dels.list y.toNat ∧
      dels.Keeps (dels.deltas.outputToInputOffset y) ∧
      dels.deltas.inputToOutputOffset (dels.deltas.outputToInputOffset y) = y := by
  have hle := deletedUpTo_le_total 0 dels.list y.toNat
  have hfit := dels.outputToInputOffset_toNat (y := y) (by rw [toInput]; omega)
  have hspec := @toOutput_toInput 0 0 dels.list dels.list_separated le_rfl y.toNat (Nat.zero_le _)
  obtain ⟨-, hkept, hbefore⟩ := hspec
  have hkeeps : dels.Keeps (dels.deltas.outputToInputOffset y) := by
    rw [Keeps, hfit]
    exact hkept
  refine ⟨hfit, hkeeps, ?_⟩
  apply UInt64.toNat_inj.mp
  rw [dels.inputToOutputOffset_toNat hkeeps, hfit, toOutput, hbefore, toInput]
  omega

end SectionDeletions

end JdxLinker.Riscv
