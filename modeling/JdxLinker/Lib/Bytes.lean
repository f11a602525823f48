import Mathlib.Data.List.TakeDrop
import Mathlib.Tactic.Ring

/-!
# Little-endian numbers in a byte buffer

A number written over a run of bytes of a buffer, least significant byte first, and the bytes of a
run read back as a number. A write changes nothing outside of its run.
-/

namespace JdxLinker.Bytes

/-- The `len` low bytes of a number. -/
def leBytes : Nat → Nat → List UInt8
  | 0, _ => []
  | len + 1, value => UInt8.ofNat value :: leBytes len (value / 256)

/-- The number that bytes stand for. -/
def readLe : List UInt8 → Nat
  | [] => 0
  | byte :: bytes => byte.toNat + 256 * readLe bytes

/-- The `len` bytes of a buffer from `offset`. -/
def slice (buffer : List UInt8) (offset len : Nat) : List UInt8 := (buffer.drop offset).take len

/-- A buffer with the bytes from `offset` replaced. -/
def splice (buffer : List UInt8) (offset : Nat) (bytes : List UInt8) : List UInt8 :=
  buffer.take offset ++ bytes ++ buffer.drop (offset + bytes.length)

@[simp] theorem leBytes_length (len value : Nat) : (leBytes len value).length = len := by
  induction len generalizing value with
  | zero => rfl
  | succ len ih => rw [leBytes, List.length_cons, ih]

theorem readLe_leBytes (len value : Nat) : readLe (leBytes len value) = value % 256 ^ len := by
  induction len generalizing value with
  | zero => rw [leBytes, readLe, pow_zero, Nat.mod_one]
  | succ len ih =>
      have hbyte : (UInt8.ofNat value).toNat = value % 256 := UInt8.toNat_ofNat'
      rw [leBytes, readLe, ih, hbyte, pow_succ', Nat.mod_mul]

theorem readLe_leBytes_of_lt {len value : Nat} (h : value < 256 ^ len) :
    readLe (leBytes len value) = value := by
  rw [readLe_leBytes, Nat.mod_eq_of_lt h]

/-- Bytes are those of the number they stand for. -/
theorem leBytes_readLe (bytes : List UInt8) : leBytes bytes.length (readLe bytes) = bytes := by
  induction bytes with
  | nil => rfl
  | cons byte bytes ih =>
      have hlt : byte.toNat < 256 := byte.toNat_lt
      have hbyte : UInt8.ofNat (byte.toNat + 256 * readLe bytes) = byte := by
        apply UInt8.toNat_inj.mp
        rw [UInt8.toNat_ofNat', Nat.add_mul_mod_self_left, Nat.mod_eq_of_lt hlt]
      have htail : (byte.toNat + 256 * readLe bytes) / 256 = readLe bytes := by omega
      rw [readLe, List.length_cons, leBytes, hbyte, htail, ih]

/-- The low bytes of a number come before the others. -/
theorem leBytes_add (len len' value : Nat) :
    leBytes (len + len') value = leBytes len value ++ leBytes len' (value / 256 ^ len) := by
  induction len generalizing value with
  | zero => rw [Nat.zero_add, pow_zero, Nat.div_one, leBytes, List.nil_append]
  | succ len ih =>
      rw [Nat.succ_add, leBytes, leBytes, ih, List.cons_append, Nat.div_div_eq_div_mul, pow_succ']

theorem slice_append_drop (buffer : List UInt8) (offset len : Nat) :
    slice buffer offset len ++ buffer.drop (offset + len) = buffer.drop offset := by
  rw [slice, ← List.drop_drop, List.take_append_drop]

theorem splice_length {buffer bytes : List UInt8} {offset : Nat}
    (h : offset + bytes.length ≤ buffer.length) :
    (splice buffer offset bytes).length = buffer.length := by
  simp only [splice, List.length_append, List.length_take, List.length_drop]
  omega

theorem splice_getElem? {buffer bytes : List UInt8} {offset : Nat}
    (h : offset + bytes.length ≤ buffer.length) (i : Nat) :
    (splice buffer offset bytes)[i]?
      = if offset ≤ i ∧ i < offset + bytes.length then bytes[i - offset]? else buffer[i]? := by
  unfold splice
  by_cases hlow : i < offset
  · rw [if_neg (by omega), List.append_assoc, List.getElem?_append_left (by simp; omega),
      List.getElem?_take_of_lt hlow]
  · by_cases hmid : i < offset + bytes.length
    · rw [if_pos ⟨by omega, hmid⟩, List.getElem?_append_left (by simp; omega),
        List.getElem?_append_right (by simp; omega)]
      simp only [List.length_take]
      congr 1
      omega
    · rw [if_neg (by omega), List.getElem?_append_right (by simp; omega), List.getElem?_drop]
      simp only [List.length_append, List.length_take]
      congr 1
      omega

theorem slice_getElem? (buffer : List UInt8) (offset len i : Nat) :
    (slice buffer offset len)[i]? = if i < len then buffer[offset + i]? else none := by
  unfold slice
  split
  · rename_i h
    rw [List.getElem?_take_of_lt h, List.getElem?_drop]
  · rename_i h
    rw [List.getElem?_take_eq_none (by omega)]

/-- What was written is read back. -/
theorem slice_splice {buffer bytes : List UInt8} {offset : Nat}
    (h : offset + bytes.length ≤ buffer.length) :
    slice (splice buffer offset bytes) offset bytes.length = bytes := by
  ext1 i
  rw [slice_getElem?, splice_getElem? h]
  split
  · rename_i hi
    rw [if_pos ⟨by omega, by omega⟩, Nat.add_sub_cancel_left]
  · rename_i hi
    exact (List.getElem?_eq_none (by omega)).symm

/-- A write changes no other run. -/
theorem slice_splice_of_disjoint {buffer bytes : List UInt8} {offset start len : Nat}
    (h : offset + bytes.length ≤ buffer.length)
    (hdisjoint : start + len ≤ offset ∨ offset + bytes.length ≤ start) :
    slice (splice buffer offset bytes) start len = slice buffer start len := by
  ext1 i
  rw [slice_getElem?, slice_getElem?, splice_getElem? h]
  split
  · rw [if_neg (by omega)]
  · rfl

/-- Buffers that agree on a run have the same bytes there. -/
theorem slice_congr {buffer buffer' : List UInt8} {offset len : Nat}
    (h : ∀ i, offset ≤ i → i < offset + len → buffer[i]? = buffer'[i]?) :
    slice buffer offset len = slice buffer' offset len := by
  ext1 i
  rw [slice_getElem?, slice_getElem?]
  split
  · exact h (offset + i) (by omega) (by omega)
  · rfl

end JdxLinker.Bytes

/-!
## Byte strings one after the other

Byte strings that are each preceded by their length can be told apart again: no two lists of byte
strings are written alike.
-/

namespace JdxLinker.Framing

open Bytes

/-- A byte string after its length, in eight bytes. -/
def frame (bytes : List UInt8) : List UInt8 := leBytes 8 bytes.length ++ bytes

theorem length_eq_of_leBytes {a b : List UInt8} (ha : a.length < 2 ^ 64) (hb : b.length < 2 ^ 64)
    (h : leBytes 8 a.length = leBytes 8 b.length) : a.length = b.length := by
  rw [← @readLe_leBytes_of_lt 8 _ ha, h, readLe_leBytes_of_lt hb]

theorem frame_append_inj {a b rest rest' : List UInt8} (ha : a.length < 2 ^ 64)
    (hb : b.length < 2 ^ 64) (h : frame a ++ rest = frame b ++ rest') : a = b ∧ rest = rest' := by
  unfold frame at h
  rw [List.append_assoc, List.append_assoc] at h
  obtain ⟨hlength, h⟩ := List.append_inj h (by rw [leBytes_length, leBytes_length])
  exact List.append_inj h (length_eq_of_leBytes ha hb hlength)

theorem frame_ne_nil (bytes : List UInt8) : frame bytes ≠ [] := by
  intro h
  have hlength := congrArg List.length h
  rw [frame, List.length_append, leBytes_length] at hlength
  exact absurd hlength (by simp)

theorem flatMap_frame_injective {as bs : List (List UInt8)} (ha : ∀ a ∈ as, a.length < 2 ^ 64)
    (hb : ∀ b ∈ bs, b.length < 2 ^ 64) (h : as.flatMap frame = bs.flatMap frame) : as = bs := by
  induction as generalizing bs with
  | nil =>
      cases bs with
      | nil => rfl
      | cons b bs => exact absurd (List.append_eq_nil_iff.mp h.symm).1 (frame_ne_nil b)
  | cons a as ih =>
      cases bs with
      | nil => exact absurd (List.append_eq_nil_iff.mp h).1 (frame_ne_nil a)
      | cons b bs =>
          rw [List.flatMap_cons, List.flatMap_cons] at h
          obtain ⟨rfl, hrest⟩ := frame_append_inj (ha a List.mem_cons_self)
            (hb b List.mem_cons_self) h
          rw [ih (fun a ha' => ha a (List.mem_cons_of_mem _ ha'))
            (fun b hb' => hb b (List.mem_cons_of_mem _ hb')) hrest]

end JdxLinker.Framing
