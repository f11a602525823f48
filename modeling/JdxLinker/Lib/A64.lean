import Mathlib

/-!
# A few A64 instructions

Branches to a label, and the instructions that compute an address relative to the page of the program
counter and branch to it.
-/

namespace JdxLinker.A64

abbrev Address := BitVec 64
abbrev Register := BitVec 5

inductive Instruction where
  /-- `B` or `BL`. -/
  | branch (link : Bool) (imm26 : BitVec 26)
  | adrp (rd : Register) (imm21 : BitVec 21)
  | addImmediate (rd rn : Register) (imm12 : BitVec 12)
  | branchRegister (rn : Register)
  deriving Repr, DecidableEq

/-- The instruction of a word, if it is one of these. -/
def decode (word : BitVec 32) : Option Instruction :=
  if word.extractLsb' 26 5 = 0b00101#5 then
    some (.branch (word.getLsbD 31) (word.extractLsb' 0 26))
  else if word.extractLsb' 24 5 = 0b10000#5 ∧ word.getLsbD 31 = true then
    some (.adrp (word.extractLsb' 0 5) (word.extractLsb' 5 19 ++ word.extractLsb' 29 2))
  else if word.extractLsb' 22 10 = 0b1001000100#10 then
    some (.addImmediate (word.extractLsb' 0 5) (word.extractLsb' 5 5) (word.extractLsb' 10 12))
  else if word.extractLsb' 10 22 = 0b1101011000011111000000#22 ∧ word.extractLsb' 0 5 = 0#5 then
    some (.branchRegister (word.extractLsb' 5 5))
  else none

structure State where
  pc : Address
  x : Register → Address

/-- The page of an address. -/
def page (address : Address) : Address := address &&& ~~~0xfff#64

def Instruction.execute (s : State) : Instruction → State
  | .branch link imm26 =>
    { pc := s.pc + (imm26 ++ 0#2).signExtend 64
      x := if link then Function.update s.x 30 (s.pc + 4) else s.x }
  | .adrp rd imm21 =>
    { pc := s.pc + 4
      x := Function.update s.x rd (page s.pc + (imm21 ++ 0#12).signExtend 64) }
  | .addImmediate rd rn imm12 =>
    { pc := s.pc + 4
      x := Function.update s.x rd (s.x rn + imm12.setWidth 64) }
  | .branchRegister rn => { s with pc := s.x rn }

/-- One step of a program in memory. -/
def step (memory : Address → Option (BitVec 32)) (s : State) : Option State := do
  let word ← memory s.pc
  let instruction ← decode word
  return instruction.execute s

def run (memory : Address → Option (BitVec 32)) : Nat → State → Option State
  | 0, s => some s
  | n + 1, s => do
    let next ← step memory s
    run memory n next

theorem step_eq {memory : Address → Option (BitVec 32)} {s : State} {word : BitVec 32}
    {instruction : Instruction} (hmemory : memory s.pc = some word)
    (hdecode : decode word = some instruction) : step memory s = some (instruction.execute s) := by
  unfold step
  rw [hmemory, Option.bind_eq_bind, Option.bind_some, hdecode]
  rfl

theorem run_succ {memory : Address → Option (BitVec 32)} {s next : State} (n : Nat)
    (h : step memory s = some next) : run memory (n + 1) s = run memory n next := by
  rw [run, h]
  rfl

/-- A sequence that goes to an address relative to its own page. -/
theorem run_adrp_add_br {memory : Address → Option (BitVec 32)} {address : Address}
    {x : Register → Address} {adrp add br : BitVec 32} {r : Register} {imm21 : BitVec 21}
    {imm12 : BitVec 12} (hadrp : memory address = some adrp)
    (hadd : memory (address + 4) = some add) (hbr : memory (address + 4 + 4) = some br)
    (hdecodeAdrp : decode adrp = some (.adrp r imm21))
    (hdecodeAdd : decode add = some (.addImmediate r r imm12))
    (hdecodeBr : decode br = some (.branchRegister r)) :
    ∃ s, run memory 3 ⟨address, x⟩ = some s ∧
      s.pc = page address + (imm21 ++ 0#12).signExtend 64 + imm12.setWidth 64 := by
  have hfirst := step_eq (s := ⟨address, x⟩) hadrp hdecodeAdrp
  have hsecond := step_eq (s := Instruction.execute ⟨address, x⟩ (.adrp r imm21)) hadd hdecodeAdd
  have hthird := step_eq (s := Instruction.execute (Instruction.execute ⟨address, x⟩
    (.adrp r imm21)) (.addImmediate r r imm12)) hbr hdecodeBr
  refine ⟨_, (run_succ 2 hfirst).trans ((run_succ 1 hsecond).trans (run_succ 0 hthird)), ?_⟩
  simp only [Instruction.execute, Function.update_self]

/-! ### Immediates -/

theorem ofInt_sub (a b : Int) : BitVec.ofInt 64 (a - b) = BitVec.ofInt 64 a - BitVec.ofInt 64 b := by
  rw [Int.sub_eq_add_neg, BitVec.ofInt_add, BitVec.ofInt_neg, BitVec.sub_eq_add_neg]

/-- A multiple of four within the range of a branch is what its immediate stands for. -/
theorem signExtend_branch {value : Address} (hmin : -2 ^ 27 ≤ value.toInt)
    (hmax : value.toInt < 2 ^ 27) (haligned : value.toNat % 4 = 0) :
    (value.extractLsb' 2 26 ++ 0#2).signExtend 64 = value := by
  apply BitVec.eq_of_toInt_eq
  rw [BitVec.toInt_signExtend_of_le (by decide), BitVec.toInt_append_zero]
  have hvalue := BitVec.toInt_eq_toNat_bmod value
  have hfield := BitVec.toInt_eq_toNat_bmod (value.extractLsb' 2 26)
  rw [BitVec.extractLsb'_toNat, Nat.shiftRight_eq_div_pow] at hfield
  rw [Int.bmod_def] at hvalue hfield
  have hlt := value.isLt
  omega

/-- The low bits of a number of pages stand for the number itself, up to a multiple of their
range. -/
theorem toInt_signExtend_page (pages : BitVec 64) :
    ((pages.setWidth 21 ++ 0#12).signExtend 64).toInt = (pages.toInt * 4096).bmod (2 ^ 33) := by
  rw [BitVec.toInt_signExtend_of_le (by decide), BitVec.toInt_append_zero]
  have hpages := BitVec.toInt_eq_toNat_bmod pages
  have hfield := BitVec.toInt_eq_toNat_bmod (pages.setWidth 21)
  rw [BitVec.toNat_setWidth] at hfield
  rw [Int.bmod_def] at hpages hfield ⊢
  have hlt := pages.isLt
  omega

/-- An address is its page and its place in the page. -/
theorem page_add (address : Address) : page address + (address &&& 0xfff#64) = address := by
  unfold page
  rw [BitVec.add_eq_or_of_and_eq_zero]
  · apply BitVec.eq_of_getLsbD_eq
    intro i hi
    simp only [BitVec.getLsbD_or, BitVec.getLsbD_and, BitVec.getLsbD_not]
    cases address.getLsbD i <;> cases (0xfff#64).getLsbD i <;> simp [hi]
  · apply BitVec.eq_of_getLsbD_eq
    intro i hi
    simp only [BitVec.getLsbD_and, BitVec.getLsbD_not]
    cases address.getLsbD i <;> cases (0xfff#64).getLsbD i <;> simp

theorem page_toNat (address : Address) : (page address).toNat % 4096 = 0 := by
  have hlow : (page address).setWidth 12 = 0#12 := by
    unfold page
    rw [BitVec.setWidth_and, show (~~~0xfff#64).setWidth 12 = 0#12 from rfl, BitVec.and_zero]
  have hmod := congrArg BitVec.toNat hlow
  rwa [BitVec.toNat_setWidth] at hmod

/-- Pages are a whole number of pages apart. -/
theorem page_sub_toInt (a b : Address) : (page a - page b).toInt % 4096 = 0 := by
  have ha := page_toNat a
  have hb := page_toNat b
  have hlt := (page b).isLt
  rw [BitVec.toInt_eq_toNat_bmod, BitVec.toNat_sub, Int.bmod_def]
  omega

end JdxLinker.A64
