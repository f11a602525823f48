import Mathlib

/-!
# Byte strings as text

How a byte string that should be UTF-8 is shown: what is no well-formed sequence becomes a
replacement character.
-/

namespace JdxLinker.Utf8

/-- The character that stands for bytes that are not UTF-8. -/
def replacement : Char := Char.ofNat 0xFFFD

/-- How a longer sequence starts: the number of bytes that follow the first, the range of the second
byte, and the bits of the first that belong to the character. -/
structure Lead where
  following : Nat
  low : UInt8
  high : UInt8
  bits : Nat

/-- The sequence that a byte starts, unless it is a character of its own or starts none. -/
def lead (byte : UInt8) : Option Lead :=
  if 0xC2 ≤ byte ∧ byte ≤ 0xDF then some ⟨1, 0x80, 0xBF, byte.toNat % 0x20⟩
  else if byte = 0xE0 then some ⟨2, 0xA0, 0xBF, 0⟩
  else if byte = 0xED then some ⟨2, 0x80, 0x9F, 0xD⟩
  else if 0xE1 ≤ byte ∧ byte ≤ 0xEF then some ⟨2, 0x80, 0xBF, byte.toNat % 0x10⟩
  else if byte = 0xF0 then some ⟨3, 0x90, 0xBF, 0⟩
  else if 0xF1 ≤ byte ∧ byte ≤ 0xF3 then some ⟨3, 0x80, 0xBF, byte.toNat % 8⟩
  else if byte = 0xF4 then some ⟨3, 0x80, 0x8F, 4⟩
  else none

def isContinuation (byte : UInt8) : Bool := 0x80 ≤ byte && byte ≤ 0xBF

/-- The character that a longer sequence stands for, and the number of bytes after the first that it
takes. A sequence that breaks off is replaced together with the part of it that was well-formed. -/
def decodeSequence (lead : Lead) (rest : List UInt8) : Char × Nat :=
  match rest with
  | [] => (replacement, 0)
  | second :: rest =>
    if lead.low ≤ second ∧ second ≤ lead.high then
      let tail := (rest.take (lead.following - 1)).takeWhile isContinuation
      if tail.length = lead.following - 1 then
        (Char.ofNat ((second :: tail).foldl (fun bits byte => bits * 0x40 + byte.toNat % 0x40)
          lead.bits), lead.following)
      else (replacement, 1 + tail.length)
    else (replacement, 0)

/-- The characters of a byte string of at most `fuel` bytes. -/
def lossyChars (fuel : Nat) (bytes : List UInt8) : List Char :=
  match fuel, bytes with
  | 0, _ | _, [] => []
  | fuel + 1, byte :: rest =>
    if byte < 0x80 then Char.ofNat byte.toNat :: lossyChars fuel rest
    else
      match lead byte with
      | none => replacement :: lossyChars fuel rest
      | some lead =>
        let (char, taken) := decodeSequence lead rest
        char :: lossyChars fuel (rest.drop taken)

def fromUtf8Lossy (bytes : List UInt8) : String := String.ofList (lossyChars bytes.length bytes)

/-- Whether at most `fuel` bytes are well-formed sequences. -/
def isUtf8Within (fuel : Nat) (bytes : List UInt8) : Bool :=
  match fuel, bytes with
  | _, [] => true
  | 0, _ => false
  | fuel + 1, byte :: rest =>
    if byte < 0x80 then isUtf8Within fuel rest
    else
      match lead byte with
      | none => false
      | some lead =>
        let (_, taken) := decodeSequence lead rest
        taken = lead.following && isUtf8Within fuel (rest.drop taken)

/-- Whether a byte string is UTF-8. -/
def isUtf8 (bytes : List UInt8) : Bool := isUtf8Within bytes.length bytes

example : fromUtf8Lossy [0x61, 0xC3, 0xA9, 0xE2, 0x82, 0x62, 0xFF] = "aé\uFFFDb\uFFFD" := by decide

example : (isUtf8 [0x61, 0xE2, 0x82, 0xAC], isUtf8 [0xE2, 0x82, 0x62], isUtf8 [0xED, 0xA0, 0x80])
    = (true, false, false) := by decide

end JdxLinker.Utf8

/-!
## Text as byte strings

The bytes of characters are decoded to the characters again. Decoding any bytes makes up no null
character, and the bytes of other characters contain no null byte.
-/

namespace JdxLinker.Utf8

/-- The bytes of characters. -/
def encode (chars : List Char) : List UInt8 := chars.flatMap String.utf8EncodeChar

@[simp] theorem encode_nil : encode [] = [] := rfl

@[simp] theorem encode_cons (c : Char) (chars : List Char) :
    encode (c :: chars) = String.utf8EncodeChar c ++ encode chars := List.flatMap_cons

@[simp] theorem encode_append (chars chars' : List Char) :
    encode (chars ++ chars') = encode chars ++ encode chars' := List.flatMap_append

theorem toNat_ofNat {n : Nat} (h : n < 256) : (UInt8.ofNat n).toNat = n :=
  UInt8.toNat_ofNat_of_lt' h

theorem ofNat_between {n : Nat} (low high : UInt8) (hlow : low.toNat ≤ n) (hhigh : n ≤ high.toNat) :
    low ≤ UInt8.ofNat n ∧ UInt8.ofNat n ≤ high := by
  have hn : n < 256 := Nat.lt_of_le_of_lt hhigh high.toNat_lt
  rw [UInt8.le_iff_toNat_le, UInt8.le_iff_toNat_le, toNat_ofNat hn]
  exact ⟨hlow, hhigh⟩

/-! ### The first byte of a sequence -/

/-- Whether a byte can come second, after the first byte `first`. -/
def Second (first second : Nat) : Prop :=
  0x80 ≤ second ∧ second ≤ 0xBF ∧ (first = 0xE0 → 0xA0 ≤ second) ∧ (first = 0xED → second ≤ 0x9F)
    ∧ (first = 0xF0 → 0x90 ≤ second) ∧ (first = 0xF4 → second ≤ 0x8F)

/-- A sequence of `following` more bytes is started by a byte with the bits `bits`. -/
def Starts (first following bits : Nat) : Prop :=
  (following = 1 ∧ 0xC2 ≤ first ∧ first ≤ 0xDF ∧ bits = first - 0xC0)
    ∨ (following = 2 ∧ 0xE0 ≤ first ∧ first ≤ 0xEF ∧ bits = first - 0xE0)
    ∨ (following = 3 ∧ 0xF0 ≤ first ∧ first ≤ 0xF4 ∧ bits = first - 0xF0)

/-- What the first byte says is what a sequence of its length and range needs. -/
theorem lead_spec {byte : UInt8} {l : Lead} (h : lead byte = some l) :
    Starts byte.toNat l.following l.bits
      ∧ ∀ second, l.low.toNat ≤ second → second ≤ l.high.toNat → Second byte.toNat second := by
  simp only [lead, UInt8.le_iff_toNat_le, ← UInt8.toNat_inj, UInt8.reduceToNat] at h
  split_ifs at h with h2 h3 h4 h5 h6 h7 h8 <;> cases h <;>
    simp only [UInt8.reduceToNat, Starts, Second, true_and] <;>
    exact ⟨by omega, fun second hlow hhigh => by omega⟩

theorem lead_of_starts {first following bits : Nat} (h : Starts first following bits) :
    ∃ l, lead (UInt8.ofNat first) = some l ∧ l.following = following ∧ l.bits = bits
      ∧ ∀ second, Second first second → l.low.toNat ≤ second ∧ second ≤ l.high.toNat := by
  have hfirst : (UInt8.ofNat first).toNat = first := by
    rw [toNat_ofNat]
    unfold Starts at h
    omega
  have hsome : (lead (UInt8.ofNat first)).isSome := by
    simp only [lead, UInt8.le_iff_toNat_le, ← UInt8.toNat_inj, hfirst, UInt8.reduceToNat]
    unfold Starts at h
    split_ifs with h2 h3 h4 h5 h6 h7 h8 <;> simp only [Option.isSome_some, Option.isSome_none]
    omega
  obtain ⟨l, hl⟩ := Option.isSome_iff_exists.mp hsome
  refine ⟨l, hl, ?_⟩
  simp only [lead, UInt8.le_iff_toNat_le, ← UInt8.toNat_inj, hfirst, UInt8.reduceToNat] at hl
  unfold Starts at h
  split_ifs at hl with h2 h3 h4 h5 h6 h7 h8 <;> cases hl <;>
    simp only [UInt8.reduceToNat, Second] <;>
    exact ⟨by omega, by omega, fun second hsecond => by omega⟩

/-! ### Decoding what was encoded -/

theorem decodeSequence_append {l : Lead} {second : Nat} {tail : List UInt8} (rest : List UInt8)
    (hlow : l.low.toNat ≤ second) (hhigh : second ≤ l.high.toNat)
    (htail : tail.length = l.following - 1) (hcontinue : ∀ byte ∈ tail, isContinuation byte = true) :
    decodeSequence l (UInt8.ofNat second :: (tail ++ rest))
      = (Char.ofNat ((UInt8.ofNat second :: tail).foldl
          (fun bits byte => bits * 0x40 + byte.toNat % 0x40) l.bits), l.following) := by
  have htake : ((tail ++ rest).take (l.following - 1)).takeWhile isContinuation = tail := by
    rw [← htail, List.take_left, List.takeWhile_eq_self_iff.mpr hcontinue]
  rw [decodeSequence, if_pos (ofNat_between l.low l.high hlow hhigh)]
  simp only [htake, htail, if_true]

theorem isContinuation_ofNat (n : Nat) : isContinuation (UInt8.ofNat (n % 0x40 + 0x80)) = true := by
  have hbetween := ofNat_between (n := n % 0x40 + 0x80) 0x80 0xBF
    (by simp only [UInt8.reduceToNat]; omega) (by simp only [UInt8.reduceToNat]; omega)
  rw [isContinuation, decide_eq_true hbetween.1, decide_eq_true hbetween.2]
  rfl

theorem toNat_continuation (n : Nat) :
    (UInt8.ofNat (n % 0x40 + 0x80)).toNat % 0x40 = n % 0x40 := by
  rw [toNat_ofNat (by omega)]
  omega

/-- A sequence is decoded to one character, and the bytes after it are left. -/
theorem lossyChars_sequence {first following bits second : Nat}
    (hstarts : Starts first following bits) (hsecond : Second first second) (tail : List UInt8)
    (htail : tail.length = following - 1) (hcontinue : ∀ byte ∈ tail, isContinuation byte = true)
    (fuel : Nat) (rest : List UInt8) :
    lossyChars (fuel + 1) (UInt8.ofNat first :: UInt8.ofNat second :: (tail ++ rest))
      = Char.ofNat ((UInt8.ofNat second :: tail).foldl
          (fun bits byte => bits * 0x40 + byte.toNat % 0x40) bits) :: lossyChars fuel rest := by
  obtain ⟨l, hl, rfl, rfl, hrange⟩ := lead_of_starts hstarts
  obtain ⟨hlow, hhigh⟩ := hrange second hsecond
  have hfirst : ¬UInt8.ofNat first < 0x80 := by
    unfold Starts at hstarts
    rw [UInt8.lt_iff_toNat_lt, toNat_ofNat (by omega)]
    simp only [UInt8.reduceToNat]
    omega
  have hpos : (UInt8.ofNat second :: (tail ++ rest)).drop l.following = rest := by
    have hfollowing : l.following = tail.length + 1 := by
      unfold Starts at hstarts
      omega
    rw [hfollowing, List.drop_succ_cons, List.drop_left]
  simp only [lossyChars, if_neg hfirst, hl, decodeSequence_append rest hlow hhigh htail hcontinue, hpos]

theorem utf8EncodeChar_eq (c : Char) : String.utf8EncodeChar c =
    if c.toNat ≤ 0x7f then [UInt8.ofNat c.toNat]
    else if c.toNat ≤ 0x7ff then
      [UInt8.ofNat (c.toNat / 64 % 0x20 + 0xc0), UInt8.ofNat (c.toNat % 0x40 + 0x80)]
    else if c.toNat ≤ 0xffff then
      [UInt8.ofNat (c.toNat / 4096 % 0x10 + 0xe0), UInt8.ofNat (c.toNat / 64 % 0x40 + 0x80),
        UInt8.ofNat (c.toNat % 0x40 + 0x80)]
    else
      [UInt8.ofNat (c.toNat / 262144 % 0x08 + 0xf0), UInt8.ofNat (c.toNat / 4096 % 0x40 + 0x80),
        UInt8.ofNat (c.toNat / 64 % 0x40 + 0x80), UInt8.ofNat (c.toNat % 0x40 + 0x80)] := rfl

theorem lossyChars_char (c : Char) (fuel : Nat) (rest : List UInt8) :
    lossyChars (fuel + 1) (String.utf8EncodeChar c ++ rest) = c :: lossyChars fuel rest := by
  have hvalid : c.toNat < 0xD800 ∨ 0xDFFF < c.toNat ∧ c.toNat < 0x110000 := c.valid
  have hc : Char.ofNat c.toNat = c := Char.ofNat_toNat c
  rw [utf8EncodeChar_eq]
  revert hvalid hc
  generalize c.toNat = v
  intro hvalid hc
  have hlast := isContinuation_ofNat v
  have hmiddle := isContinuation_ofNat (v / 64)
  split_ifs with h1 h2 h3
  · have hbyte : (UInt8.ofNat v).toNat = v := toNat_ofNat (by omega)
    have hlt : UInt8.ofNat v < 0x80 := by
      rw [UInt8.lt_iff_toNat_lt, hbyte]
      exact Nat.lt_succ_of_le h1
    simp only [List.cons_append, List.nil_append, lossyChars, if_pos hlt, hbyte, hc]
  · have hstarts : Starts (v / 64 % 0x20 + 0xc0) 1 (v / 64) := by
      unfold Starts
      omega
    have hsecond : Second (v / 64 % 0x20 + 0xc0) (v % 0x40 + 0x80) := by
      unfold Second
      omega
    have hdecoded := lossyChars_sequence hstarts hsecond [] rfl (by simp) fuel rest
    have hvalue : v / 64 * 0x40 + v % 0x40 = v := by omega
    rw [List.foldl_cons, List.foldl_nil, toNat_continuation, hvalue, hc] at hdecoded
    exact hdecoded
  · have hstarts : Starts (v / 4096 % 0x10 + 0xe0) 2 (v / 4096) := by
      unfold Starts
      omega
    have hsecond : Second (v / 4096 % 0x10 + 0xe0) (v / 64 % 0x40 + 0x80) := by
      unfold Second
      omega
    have hdecoded := lossyChars_sequence hstarts hsecond [UInt8.ofNat (v % 0x40 + 0x80)] rfl
      (List.forall_mem_singleton.mpr hlast) fuel rest
    have hvalue : (v / 4096 * 0x40 + v / 64 % 0x40) * 0x40 + v % 0x40 = v := by omega
    rw [List.foldl_cons, List.foldl_cons, List.foldl_nil, toNat_continuation, toNat_continuation,
      hvalue, hc] at hdecoded
    exact hdecoded
  · have hstarts : Starts (v / 262144 % 0x08 + 0xf0) 3 (v / 262144) := by
      unfold Starts
      omega
    have hsecond : Second (v / 262144 % 0x08 + 0xf0) (v / 4096 % 0x40 + 0x80) := by
      unfold Second
      omega
    have hdecoded := lossyChars_sequence hstarts hsecond
      [UInt8.ofNat (v / 64 % 0x40 + 0x80), UInt8.ofNat (v % 0x40 + 0x80)] rfl
      (List.forall_mem_cons.mpr ⟨hmiddle, List.forall_mem_singleton.mpr hlast⟩) fuel rest
    have hvalue : ((v / 262144 * 0x40 + v / 4096 % 0x40) * 0x40 + v / 64 % 0x40) * 0x40 + v % 0x40
        = v := by omega
    rw [List.foldl_cons, List.foldl_cons, List.foldl_cons, List.foldl_nil, toNat_continuation,
      toNat_continuation, toNat_continuation, hvalue, hc] at hdecoded
    exact hdecoded

theorem lossyChars_encode {chars : List Char} {fuel : Nat} (h : chars.length ≤ fuel) :
    lossyChars fuel (encode chars) = chars := by
  induction chars generalizing fuel with
  | nil => cases fuel <;> rfl
  | cons c chars ih =>
      obtain ⟨fuel, rfl⟩ : ∃ n, fuel = n + 1 := ⟨fuel - 1, by simp at h; omega⟩
      rw [encode_cons, lossyChars_char, ih (by simpa using h)]

theorem length_le_encode (chars : List Char) : chars.length ≤ (encode chars).length := by
  induction chars with
  | nil => exact Nat.le_refl _
  | cons c chars ih =>
      have hpos : 0 < (String.utf8EncodeChar c).length := by
        rw [String.length_utf8EncodeChar]
        exact c.utf8Size_pos
      rw [encode_cons, List.length_append, List.length_cons]
      omega

/-- Characters come back from their bytes. -/
theorem fromUtf8Lossy_encode (chars : List Char) :
    fromUtf8Lossy (encode chars) = String.ofList chars := by
  rw [fromUtf8Lossy, lossyChars_encode (length_le_encode chars)]

/-! ### Null characters -/

/-- The bytes of characters that are not null are not null. -/
theorem zero_notMem_encode {chars : List Char} (h : Char.ofNat 0 ∉ chars) : 0 ∉ encode chars := by
  intro hmem
  obtain ⟨c, hc, hzero⟩ := List.mem_flatMap.mp hmem
  have hne : c.toNat ≠ 0 := by
    intro heq
    rw [← Char.ofNat_toNat c, heq] at hc
    exact h hc
  have hbyte : ∀ n : Nat, (0 : UInt8) = UInt8.ofNat n → n % 256 = 0 := by
    intro n heq
    have hnat := congrArg UInt8.toNat heq
    rw [UInt8.toNat_ofNat'] at hnat
    exact hnat.symm
  rw [utf8EncodeChar_eq] at hzero
  split_ifs at hzero <;> simp only [List.mem_cons, List.not_mem_nil, or_false] at hzero
  · have := hbyte _ hzero
    omega
  · rcases hzero with hzero | hzero <;> have := hbyte _ hzero <;> omega
  · rcases hzero with hzero | hzero | hzero <;> have := hbyte _ hzero <;> omega
  · rcases hzero with hzero | hzero | hzero | hzero <;> have := hbyte _ hzero <;> omega

/-- A well-formed sequence stands for a character past the bytes that are their own. -/
theorem sequence_value {first following bits : Nat} {second : UInt8} {tail : List UInt8}
    (hstarts : Starts first following bits) (hsecond : Second first second.toNat)
    (htail : tail.length = following - 1) :
    (second :: tail).foldl (fun bits byte => bits * 0x40 + byte.toNat % 0x40) bits ≠ 0
      ∧ ((second :: tail).foldl (fun bits byte => bits * 0x40 + byte.toNat % 0x40) bits).isValidChar := by
  unfold Starts at hstarts
  unfold Second at hsecond
  rw [Nat.isValidChar, List.foldl_cons]
  match tail with
  | [] =>
      rw [List.foldl_nil]
      rw [List.length_nil] at htail
      omega
  | [third] =>
      rw [List.foldl_cons, List.foldl_nil]
      simp only [List.length_cons, List.length_nil] at htail
      omega
  | [third, fourth] =>
      rw [List.foldl_cons, List.foldl_cons, List.foldl_nil]
      simp only [List.length_cons, List.length_nil] at htail
      omega
  | third :: fourth :: fifth :: tail =>
      simp only [List.length_cons] at htail
      omega

/-- No sequence stands for the null character. -/
theorem decodeSequence_ne_null {byte : UInt8} {l : Lead} (h : lead byte = some l)
    (rest : List UInt8) : (decodeSequence l rest).1 ≠ Char.ofNat 0 := by
  obtain ⟨hstarts, hrange⟩ := lead_spec h
  have hreplacement : replacement ≠ Char.ofNat 0 := by decide
  cases rest with
  | nil => exact hreplacement
  | cons second rest =>
      rw [decodeSequence]
      split
      · rename_i hbetween
        rw [UInt8.le_iff_toNat_le, UInt8.le_iff_toNat_le] at hbetween
        have hsecond := hrange second.toNat hbetween.1 hbetween.2
        simp only
        split
        · rename_i htail
          obtain ⟨hne, hvalid⟩ := sequence_value hstarts hsecond htail
          intro heq
          have hnat := congrArg Char.toNat heq
          rw [Char.toNat_ofNat, if_pos hvalid] at hnat
          exact hne hnat
        · exact hreplacement
      · exact hreplacement

/-- Bytes without a null byte are decoded to characters without a null character. -/
theorem null_notMem_lossyChars {fuel : Nat} {bytes : List UInt8} (h : 0 ∉ bytes) :
    Char.ofNat 0 ∉ lossyChars fuel bytes := by
  induction fuel generalizing bytes with
  | zero => simp [lossyChars]
  | succ fuel ih =>
      cases bytes with
      | nil => simp [lossyChars]
      | cons byte rest =>
          obtain ⟨hbyte, hrest⟩ := List.ne_and_not_mem_of_not_mem_cons h
          rw [lossyChars]
          split
          · rename_i hlt
            refine List.not_mem_cons_of_ne_of_not_mem (fun heq => hbyte ?_) (ih hrest)
            have hnat := congrArg Char.toNat heq
            have hvalid : byte.toNat.isValidChar := by
              rw [UInt8.lt_iff_toNat_lt] at hlt
              simp only [UInt8.reduceToNat] at hlt
              rw [Nat.isValidChar]
              omega
            rw [Char.toNat_ofNat, Char.toNat_ofNat, if_pos hvalid, if_pos (by decide)] at hnat
            exact UInt8.toNat_inj.mp hnat
          · split
            · exact List.not_mem_cons_of_ne_of_not_mem (by decide) (ih hrest)
            · rename_i l hlead
              have hnot := decodeSequence_ne_null hlead rest
              refine List.not_mem_cons_of_ne_of_not_mem hnot.symm (ih fun hmem => hrest ?_)
              exact List.mem_of_mem_drop hmem

end JdxLinker.Utf8
