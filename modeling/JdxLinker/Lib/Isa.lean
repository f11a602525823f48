import JdxLinker.Lib.A64
import JdxLinker.Lib.Bytes

/-!
# Code in a memory of bytes

Short sequences of instructions that load a word from memory and jump to it, on four processors. A
run keeps the addresses from which words were loaded. An instruction that is none of those of the
sequences ends a run without a result.
-/

namespace JdxLinker.Isa

open A64 (Address)
open Bytes

/-! ### Memory -/

abbrev Memory := Address → UInt8

namespace Memory

def bytes (memory : Memory) (address : Address) (len : Nat) : List UInt8 :=
  (List.range len).map fun i => memory (address + BitVec.ofNat 64 i)

/-- The four bytes of an instruction, or of an immediate. -/
def word (memory : Memory) (address : Address) : BitVec 32 :=
  BitVec.ofNat 32 (readLe (memory.bytes address 4))

def doubleword (memory : Memory) (address : Address) : BitVec 64 :=
  BitVec.ofNat 64 (readLe (memory.bytes address 8))

/-- The code is in memory, from `start` on. -/
def Holds (memory : Memory) (start : Address) (code : List UInt8) : Prop :=
  memory.bytes start code.length = code

theorem Holds.slice_eq {memory : Memory} {start : Address} {code : List UInt8}
    (h : memory.Holds start code) {offset len : Nat} (hle : offset + len ≤ code.length) :
    memory.bytes (start + BitVec.ofNat 64 offset) len = slice code offset len := by
  ext1 i
  have hcode := congrArg (fun bytes => bytes[offset + i]?) h
  simp only [bytes, List.getElem?_map] at hcode ⊢
  rw [slice_getElem?]
  by_cases hi : i < len
  · rw [List.getElem?_range (by omega)] at hcode
    rw [if_pos hi, ← hcode, List.getElem?_range hi]
    simp only [Option.map_some]
    rw [BitVec.ofNat_add, BitVec.add_assoc]
  · rw [if_neg hi, List.getElem?_eq_none (by simpa using hi), Option.map_none]

/-- The bytes of a sequence of instruction words. -/
def ofWords (words : List (BitVec 32)) : List UInt8 := words.flatMap fun word => leBytes 4 word.toNat

theorem ofWords_length (words : List (BitVec 32)) : (ofWords words).length = 4 * words.length := by
  induction words with
  | nil => rfl
  | cons word words ih =>
      rw [ofWords, List.flatMap_cons, List.length_append, leBytes_length, List.length_cons]
      rw [ofWords] at ih
      omega

theorem slice_ofWords {words : List (BitVec 32)} {i : Nat} {word : BitVec 32}
    (h : words[i]? = some word) : slice (ofWords words) (4 * i) 4 = leBytes 4 word.toNat := by
  induction words generalizing i with
  | nil => cases h
  | cons first words ih =>
      have hfirst : (leBytes 4 first.toNat).length = 4 := leBytes_length _ _
      rw [ofWords, List.flatMap_cons, slice]
      cases i with
      | zero =>
          obtain rfl : first = word := Option.some.inj h
          rw [Nat.mul_zero, List.drop_zero, List.take_left' hfirst]
      | succ i =>
          have hdrop : 4 * (i + 1) = (leBytes 4 first.toNat).length + 4 * i := by omega
          rw [hdrop, List.drop_length_add_append]
          exact ih h

theorem Holds.word_eq {memory : Memory} {start : Address} {words : List (BitVec 32)}
    (hmemory : memory.Holds start (ofWords words)) {i : Nat} {word : BitVec 32}
    (h : words[i]? = some word) : memory.word (start + BitVec.ofNat 64 (4 * i)) = word := by
  obtain ⟨hi, -⟩ := List.getElem?_eq_some_iff.mp h
  have hlen : 4 * i + 4 ≤ (ofWords words).length := by
    rw [ofWords_length]
    omega
  have hword : word.toNat < 256 ^ 4 := word.isLt
  rw [Memory.word, hmemory.slice_eq hlen, slice_ofWords h, readLe_leBytes_of_lt hword,
    BitVec.ofNat_toNat, BitVec.setWidth_eq]

/-- Any code can be in memory. -/
theorem exists_holds (start : Address) {code : List UInt8} (h : code.length ≤ 2 ^ 64) :
    ∃ memory : Memory, memory.Holds start code := by
  refine ⟨fun address => code.getD (address - start).toNat 0, ?_⟩
  apply List.ext_getElem
  · simp [bytes]
  · intro i _ hi
    have hplace : (start + BitVec.ofNat 64 i - start).toNat = i := by
      rw [BitVec.add_comm, BitVec.add_sub_cancel, BitVec.toNat_ofNat, Nat.mod_eq_of_lt (by omega)]
    simp only [bytes, List.getElem_map, List.getElem_range]
    rw [hplace, List.getD_eq_getElem _ _ hi]

end Memory

/-! ### Runs -/

structure State (Register : Type) where
  pc : Address
  x : Register → Address
  /-- The addresses from which words were loaded, the first one first. -/
  loads : List Address

section Runs

variable {Register : Type}

def run (step : State Register → Option (State Register)) :
    Nat → State Register → Option (State Register)
  | 0, s => some s
  | n + 1, s => do
    let next ← step s
    run step n next

theorem run_succ {step : State Register → Option (State Register)} {s next : State Register}
    (n : Nat) (h : step s = some next) : run step (n + 1) s = run step n next := by
  rw [run, h]
  rfl

theorem run_eq_none {step : State Register → Option (State Register)} {s : State Register}
    (n : Nat) (h : step s = none) : run step (n + 1) s = none := by
  rw [run, h]
  rfl

/-- Whatever else is in memory and in the registers, the code loads the word of `slot`, and no other,
and jumps to where the word says. -/
def JumpsThrough (step : Memory → State Register → Option (State Register))
    (jump : Address → Address) (steps : Nat) (code : List UInt8) (start slot : Address) : Prop :=
  ∀ (memory : Memory) (x : Register → Address), memory.Holds start code →
    ∃ s, run (step memory) steps ⟨start, x, []⟩ = some s ∧
      s.loads = [slot] ∧ s.pc = jump (memory.doubleword slot)

/-- Whatever else is in memory and in the registers, the code goes to `target` and loads nothing. -/
def JumpsTo (step : Memory → State Register → Option (State Register)) (steps : Nat)
    (code : List UInt8) (start target : Address) : Prop :=
  ∀ (memory : Memory) (x : Register → Address), memory.Holds start code →
    ∃ s, run (step memory) steps ⟨start, x, []⟩ = some s ∧ s.loads = [] ∧ s.pc = target

variable {step : Memory → State Register → Option (State Register)} {jump : Address → Address}
  {steps : Nat} {code : List UInt8} {start slot slot' target target' : Address}

/-- Code that jumps through a slot jumps through no other. -/
theorem JumpsThrough.iff_eq (hcode : code.length ≤ 2 ^ 64)
    (h : JumpsThrough step jump steps code start slot') :
    JumpsThrough step jump steps code start slot ↔ slot' = slot := by
  constructor
  · intro hslot
    obtain ⟨memory, hmemory⟩ := Memory.exists_holds start hcode
    obtain ⟨s, hrun, hloads, -⟩ := h memory (fun _ => 0) hmemory
    obtain ⟨s', hrun', hloads', -⟩ := hslot memory (fun _ => 0) hmemory
    rw [hrun] at hrun'
    obtain rfl := Option.some.inj hrun'
    rw [hloads] at hloads'
    exact (List.cons.inj hloads').1
  · rintro rfl
    exact h

theorem JumpsTo.iff_eq (hcode : code.length ≤ 2 ^ 64) (h : JumpsTo step steps code start target') :
    JumpsTo step steps code start target ↔ target' = target := by
  constructor
  · intro htarget
    obtain ⟨memory, hmemory⟩ := Memory.exists_holds start hcode
    obtain ⟨s, hrun, -, hpc⟩ := h memory (fun _ => 0) hmemory
    obtain ⟨s', hrun', -, hpc'⟩ := htarget memory (fun _ => 0) hmemory
    rw [hrun] at hrun'
    obtain rfl := Option.some.inj hrun'
    rw [← hpc, hpc']
  · rintro rfl
    exact h

theorem not_jumpsThrough_of_none (hcode : code.length ≤ 2 ^ 64)
    (h : ∀ (memory : Memory) x, memory.Holds start code →
      run (step memory) steps ⟨start, x, []⟩ = none) :
    ¬ JumpsThrough step jump steps code start slot := by
  intro hslot
  obtain ⟨memory, hmemory⟩ := Memory.exists_holds start hcode
  obtain ⟨s, hrun, -⟩ := hslot memory (fun _ => 0) hmemory
  rw [h memory _ hmemory] at hrun
  cases hrun

end Runs

/-! ### The processors -/

/-- Sets a register, unless it is the one that is always zero. -/
def setRegister (x : BitVec 5 → Address) (rd : BitVec 5) (value : Address) : BitVec 5 → Address :=
  if rd = 0 then x else Function.update x rd value

def getRegister (x : BitVec 5 → Address) (rs : BitVec 5) : Address := if rs = 0 then 0 else x rs

theorem getRegister_setRegister {x : BitVec 5 → Address} {r : BitVec 5} (h : r ≠ 0)
    (value : Address) : getRegister (setRegister x r value) r = value := by
  rw [getRegister, setRegister, if_neg h, if_neg h, Function.update_self]

/-- The first instructions of a sequence. -/
theorem Memory.Holds.first_words {memory : Memory} {start : Address} {a b c : BitVec 32}
    {words : List (BitVec 32)} (h : memory.Holds start (ofWords (a :: b :: c :: words))) :
    memory.word start = a ∧ memory.word (start + 4) = b ∧ memory.word (start + 4 + 4) = c := by
  have hfirst : memory.word (start + 0#64) = a := h.word_eq (i := 0) rfl
  have hsecond : memory.word (start + 4) = b := h.word_eq (i := 1) rfl
  have hthird : memory.word (start + 8) = c := h.word_eq (i := 2) rfl
  rw [BitVec.add_zero] at hfirst
  refine ⟨hfirst, hsecond, ?_⟩
  rw [BitVec.add_assoc]
  exact hthird

namespace Arm

/-- Loads a doubleword at an offset, or does what `A64` has. -/
def step (memory : Memory) (s : State (BitVec 5)) : Option (State (BitVec 5)) :=
  let word := memory.word s.pc
  if word.extractLsb' 22 10 = 0b1111100101#10 then
    let address := s.x (word.extractLsb' 5 5) + (word.extractLsb' 10 12).setWidth 64 <<< 3
    some
      { pc := s.pc + 4
        x := Function.update s.x (word.extractLsb' 0 5) (memory.doubleword address)
        loads := s.loads ++ [address] }
  else
    (A64.decode word).map fun instruction =>
      let next := instruction.execute ⟨s.pc, s.x⟩
      { pc := next.pc, x := next.x, loads := s.loads }

/-- The load is none of the instructions of `A64`. -/
theorem not_load_of_decode {word : BitVec 32} {instruction : A64.Instruction}
    (h : A64.decode word = some instruction) : word.extractLsb' 22 10 ≠ 0b1111100101#10 := by
  intro hload
  have hbit : ∀ i < 10, word.getLsbD (22 + i) = (0b1111100101#10).getLsbD i := by
    intro i hi
    rw [← hload, BitVec.getLsbD_extractLsb', decide_eq_true hi, Bool.true_and]
  have hbranch : word.extractLsb' 26 5 ≠ 0b00101#5 := by
    intro heq
    have hfield := congrArg (fun field : BitVec 5 => field.getLsbD 1) heq
    simp only [BitVec.getLsbD_extractLsb'] at hfield
    rw [hbit 5 (by decide)] at hfield
    exact absurd hfield (by decide)
  have hadrp : word.extractLsb' 24 5 ≠ 0b10000#5 := by
    intro heq
    have hfield := congrArg (fun field : BitVec 5 => field.getLsbD 3) heq
    simp only [BitVec.getLsbD_extractLsb'] at hfield
    rw [hbit 5 (by decide)] at hfield
    exact absurd hfield (by decide)
  have hadd : word.extractLsb' 22 10 ≠ 0b1001000100#10 := by
    rw [hload]
    decide
  have hbr : word.extractLsb' 10 22 ≠ 0b1101011000011111000000#22 := by
    intro heq
    have hfield := congrArg (fun field : BitVec 22 => field.getLsbD 12) heq
    simp only [BitVec.getLsbD_extractLsb'] at hfield
    rw [hbit 0 (by decide)] at hfield
    exact absurd hfield (by decide)
  unfold A64.decode at h
  rw [if_neg hbranch, if_neg (fun hboth => hadrp hboth.1), if_neg hadd,
    if_neg (fun hboth => hbr hboth.1)] at h
  cases h

theorem step_of_decode {memory : Memory} {pc : Address} {instruction : A64.Instruction}
    (h : A64.decode (memory.word pc) = some instruction) (x : A64.Register → Address)
    (loads : List Address) : step memory ⟨pc, x, loads⟩ = some
      ⟨(instruction.execute ⟨pc, x⟩).pc, (instruction.execute ⟨pc, x⟩).x, loads⟩ := by
  unfold step
  simp only [if_neg (not_load_of_decode h), h, Option.map_some]

/-- A pair of instructions that loads a word from its page, and a jump there. -/
theorem jumpsThrough {adrp ldr br : BitVec 32} {words : List (BitVec 32)} {r r' : A64.Register}
    {imm21 : BitVec 21} (start : Address) (hadrp : A64.decode adrp = some (.adrp r imm21))
    (hldr : ldr.extractLsb' 22 10 = 0b1111100101#10) (hldrRn : ldr.extractLsb' 5 5 = r)
    (hldrRt : ldr.extractLsb' 0 5 = r') (hbr : A64.decode br = some (.branchRegister r')) :
    JumpsThrough step id 3 (Memory.ofWords (adrp :: ldr :: br :: words)) start
      (A64.page start + (imm21 ++ 0#12).signExtend 64 +
        (ldr.extractLsb' 10 12).setWidth 64 <<< 3) := by
  intro memory x hmemory
  obtain ⟨hfirst, hsecond, hthird⟩ := hmemory.first_words
  have hstep : step memory ⟨start, x, []⟩ = some ⟨start + 4,
      Function.update x r (A64.page start + (imm21 ++ 0#12).signExtend 64), []⟩ := by
    rw [← hfirst] at hadrp
    exact step_of_decode hadrp x []
  generalize A64.page start + (imm21 ++ 0#12).signExtend 64 = base at hstep ⊢
  have hload : step memory ⟨start + 4, Function.update x r base, []⟩ = some ⟨start + 4 + 4,
      Function.update (Function.update x r base) r'
        (memory.doubleword (base + (ldr.extractLsb' 10 12).setWidth 64 <<< 3)),
      [base + (ldr.extractLsb' 10 12).setWidth 64 <<< 3]⟩ := by
    simp only [step, hsecond, hldr, hldrRn, hldrRt, Function.update_self, if_true]
    rfl
  generalize Function.update x r base = x at hstep hload
  generalize base + (ldr.extractLsb' 10 12).setWidth 64 <<< 3 = address at hload ⊢
  generalize hword : memory.doubleword address = word at hload
  have hjump : step memory ⟨start + 4 + 4, Function.update x r' word, [address]⟩ = some
      ⟨Function.update x r' word r', Function.update x r' word, [address]⟩ := by
    rw [← hthird] at hbr
    exact step_of_decode hbr _ _
  rw [Function.update_self] at hjump
  refine ⟨_, (run_succ 2 hstep).trans ((run_succ 1 hload).trans (run_succ 0 hjump)), rfl, rfl⟩

/-- A sequence that goes to an address relative to its page. -/
theorem jumpsTo {adrp add br : BitVec 32} {words : List (BitVec 32)} {r : A64.Register}
    {imm21 : BitVec 21} {imm12 : BitVec 12} (start : Address)
    (hadrp : A64.decode adrp = some (.adrp r imm21))
    (hadd : A64.decode add = some (.addImmediate r r imm12))
    (hbr : A64.decode br = some (.branchRegister r)) :
    JumpsTo step 3 (Memory.ofWords (adrp :: add :: br :: words)) start
      (A64.page start + (imm21 ++ 0#12).signExtend 64 + imm12.setWidth 64) := by
  intro memory x hmemory
  obtain ⟨hfirst, hsecond, hthird⟩ := hmemory.first_words
  rw [← hfirst] at hadrp
  rw [← hsecond] at hadd
  rw [← hthird] at hbr
  have hstep : step memory ⟨start, x, []⟩ = some ⟨start + 4,
      Function.update x r (A64.page start + (imm21 ++ 0#12).signExtend 64), []⟩ :=
    step_of_decode hadrp x []
  generalize A64.page start + (imm21 ++ 0#12).signExtend 64 = base at hstep ⊢
  have hsum : step memory ⟨start + 4, Function.update x r base, []⟩ = some ⟨start + 4 + 4,
      Function.update (Function.update x r base) r
        (Function.update x r base r + imm12.setWidth 64), []⟩ :=
    step_of_decode hadd _ _
  rw [Function.update_self] at hsum
  generalize Function.update x r base = x at hstep hsum
  generalize base + imm12.setWidth 64 = target at hsum ⊢
  have hjump : step memory ⟨start + 4 + 4, Function.update x r target, []⟩ = some
      ⟨Function.update x r target r, Function.update x r target, []⟩ := step_of_decode hbr _ _
  rw [Function.update_self] at hjump
  exact ⟨_, (run_succ 2 hstep).trans ((run_succ 1 hsum).trans (run_succ 0 hjump)), rfl, rfl⟩

end Arm

namespace RiscV

/-- `AUIPC`, `LD` and `JALR`. -/
def step (memory : Memory) (s : State (BitVec 5)) : Option (State (BitVec 5)) :=
  let word := memory.word s.pc
  let rd := word.extractLsb' 7 5
  let rs1 := getRegister s.x (word.extractLsb' 15 5)
  let imm12 := (word.extractLsb' 20 12).signExtend 64
  if word.extractLsb' 0 7 = 0b0010111#7 then
    some
      { pc := s.pc + 4
        x := setRegister s.x rd (s.pc + (word.extractLsb' 12 20).signExtend 64 <<< 12)
        loads := s.loads }
  else if word.extractLsb' 0 7 = 0b0000011#7 ∧ word.extractLsb' 12 3 = 0b011#3 then
    some
      { pc := s.pc + 4
        x := setRegister s.x rd (memory.doubleword (rs1 + imm12))
        loads := s.loads ++ [rs1 + imm12] }
  else if word.extractLsb' 0 7 = 0b1100111#7 ∧ word.extractLsb' 12 3 = 0b000#3 then
    some
      { pc := (rs1 + imm12) &&& ~~~1#64
        x := setRegister s.x rd (s.pc + 4)
        loads := s.loads }
  else none

/-- A pair of instructions that loads a word relative to the program counter, and a jump there. -/
theorem jumpsThrough {auipc ld jalr : BitVec 32} {words : List (BitVec 32)} {r : BitVec 5}
    (start : Address) (hr : r ≠ 0) (hauipc : auipc.extractLsb' 0 7 = 0b0010111#7)
    (hauipcRd : auipc.extractLsb' 7 5 = r) (hld : ld.extractLsb' 0 7 = 0b0000011#7)
    (hldWidth : ld.extractLsb' 12 3 = 0b011#3) (hldRd : ld.extractLsb' 7 5 = r)
    (hldRs : ld.extractLsb' 15 5 = r) (hjalr : jalr.extractLsb' 0 7 = 0b1100111#7)
    (hjalrWidth : jalr.extractLsb' 12 3 = 0b000#3) (hjalrRs : jalr.extractLsb' 15 5 = r)
    (hjalrImm : jalr.extractLsb' 20 12 = 0) :
    JumpsThrough step (· &&& ~~~1#64) 3 (Memory.ofWords (auipc :: ld :: jalr :: words)) start
      (start + (auipc.extractLsb' 12 20).signExtend 64 <<< 12 +
        (ld.extractLsb' 20 12).signExtend 64) := by
  intro memory x hmemory
  obtain ⟨hfirst, hsecond, hthird⟩ := hmemory.first_words
  have hstep : step memory ⟨start, x, []⟩ = some ⟨start + 4,
      setRegister x r (start + (auipc.extractLsb' 12 20).signExtend 64 <<< 12), []⟩ := by
    simp only [step, hfirst, hauipc, hauipcRd, if_true]
  generalize start + (auipc.extractLsb' 12 20).signExtend 64 <<< 12 = base at hstep ⊢
  have hload : step memory ⟨start + 4, setRegister x r base, []⟩ = some ⟨start + 4 + 4,
      setRegister (setRegister x r base) r
        (memory.doubleword (base + (ld.extractLsb' 20 12).signExtend 64)),
      [base + (ld.extractLsb' 20 12).signExtend 64]⟩ := by
    simp only [step, hsecond, hld, hldWidth, hldRd, hldRs, getRegister_setRegister hr]
    rfl
  generalize setRegister x r base = x at hstep hload
  generalize base + (ld.extractLsb' 20 12).signExtend 64 = address at hload ⊢
  generalize hword : memory.doubleword address = word at hload
  have hjump : step memory ⟨start + 4 + 4, setRegister x r word, [address]⟩ = some
      ⟨word &&& ~~~1#64, setRegister (setRegister x r word) (jalr.extractLsb' 7 5) (start + 4 + 4 + 4), [address]⟩ := by
    simp only [step, hthird, hjalr, hjalrWidth, hjalrRs, hjalrImm, getRegister_setRegister hr]
    simp
  refine ⟨_, (run_succ 2 hstep).trans ((run_succ 1 hload).trans (run_succ 0 hjump)), rfl, ?_⟩
  rw [← hword]

end RiscV

namespace LoongArch

/-- `PCALAU12I`, `LD.D` and `JIRL`. -/
def step (memory : Memory) (s : State (BitVec 5)) : Option (State (BitVec 5)) :=
  let word := memory.word s.pc
  let rd := word.extractLsb' 0 5
  let rj := getRegister s.x (word.extractLsb' 5 5)
  if word.extractLsb' 25 7 = 0b0001101#7 then
    some
      { pc := s.pc + 4
        x := setRegister s.x rd
          (A64.page (s.pc + (word.extractLsb' 5 20).signExtend 64 <<< 12))
        loads := s.loads }
  else if word.extractLsb' 22 10 = 0b0010100011#10 then
    let address := rj + (word.extractLsb' 10 12).signExtend 64
    some
      { pc := s.pc + 4
        x := setRegister s.x rd (memory.doubleword address)
        loads := s.loads ++ [address] }
  else if word.extractLsb' 26 6 = 0b010011#6 then
    some
      { pc := rj + (word.extractLsb' 10 16).signExtend 64 <<< 2
        x := setRegister s.x rd (s.pc + 4)
        loads := s.loads }
  else none

/-- A pair of instructions that loads a word from its page, and a jump there. -/
theorem jumpsThrough {pcala ld jirl : BitVec 32} {words : List (BitVec 32)} {r : BitVec 5}
    (start : Address) (hr : r ≠ 0) (hpcala : pcala.extractLsb' 25 7 = 0b0001101#7)
    (hpcalaRd : pcala.extractLsb' 0 5 = r) (hldNot : ld.extractLsb' 25 7 ≠ 0b0001101#7)
    (hld : ld.extractLsb' 22 10 = 0b0010100011#10) (hldRd : ld.extractLsb' 0 5 = r)
    (hldRj : ld.extractLsb' 5 5 = r) (hjirlNot : jirl.extractLsb' 25 7 ≠ 0b0001101#7)
    (hjirlNot' : jirl.extractLsb' 22 10 ≠ 0b0010100011#10)
    (hjirl : jirl.extractLsb' 26 6 = 0b010011#6) (hjirlRj : jirl.extractLsb' 5 5 = r)
    (hjirlImm : jirl.extractLsb' 10 16 = 0) :
    JumpsThrough step id 3 (Memory.ofWords (pcala :: ld :: jirl :: words)) start
      (A64.page (start + (pcala.extractLsb' 5 20).signExtend 64 <<< 12) +
        (ld.extractLsb' 10 12).signExtend 64) := by
  intro memory x hmemory
  obtain ⟨hfirst, hsecond, hthird⟩ := hmemory.first_words
  have hstep : step memory ⟨start, x, []⟩ = some ⟨start + 4, setRegister x r
      (A64.page (start + (pcala.extractLsb' 5 20).signExtend 64 <<< 12)), []⟩ := by
    simp only [step, hfirst, hpcala, hpcalaRd, if_true]
  generalize A64.page (start + (pcala.extractLsb' 5 20).signExtend 64 <<< 12) = base at hstep ⊢
  have hload : step memory ⟨start + 4, setRegister x r base, []⟩ = some ⟨start + 4 + 4,
      setRegister (setRegister x r base) r
        (memory.doubleword (base + (ld.extractLsb' 10 12).signExtend 64)),
      [base + (ld.extractLsb' 10 12).signExtend 64]⟩ := by
    simp only [step, hsecond, if_neg hldNot, hld, hldRd, hldRj, getRegister_setRegister hr, if_true]
    rfl
  generalize setRegister x r base = x at hstep hload
  generalize base + (ld.extractLsb' 10 12).signExtend 64 = address at hload ⊢
  generalize hword : memory.doubleword address = word at hload
  have hjump : step memory ⟨start + 4 + 4, setRegister x r word, [address]⟩ = some
      ⟨word, setRegister (setRegister x r word) (jirl.extractLsb' 0 5) (start + 4 + 4 + 4),
        [address]⟩ := by
    simp only [step, hthird, if_neg hjirlNot, if_neg hjirlNot', hjirl, hjirlRj, hjirlImm,
      getRegister_setRegister hr, if_true]
    simp
  refine ⟨_, (run_succ 2 hstep).trans ((run_succ 1 hload).trans (run_succ 0 hjump)), rfl, rfl⟩

/-- A first instruction that is not `PCALAU12I`, but has bit 28 of it, is none of the three. -/
theorem not_jumpsThrough {pcala : BitVec 32} {words : List (BitVec 32)} {start slot : Address}
    {jump : Address → Address} {steps : Nat}
    (hlen : (Memory.ofWords (pcala :: words)).length ≤ 2 ^ 64)
    (hopcode : pcala.extractLsb' 25 7 ≠ 0b0001101#7) (hbit : pcala.getLsbD 28 = true) :
    ¬ JumpsThrough step jump (steps + 1) (Memory.ofWords (pcala :: words)) start slot := by
  apply not_jumpsThrough_of_none hlen
  intro memory x hmemory
  have hfirst : memory.word (start + 0#64) = pcala := hmemory.word_eq (i := 0) rfl
  rw [BitVec.add_zero] at hfirst
  have hld : pcala.extractLsb' 22 10 ≠ 0b0010100011#10 := by
    intro heq
    have hfield := congrArg (fun field : BitVec 10 => field.getLsbD 6) heq
    simp only [BitVec.getLsbD_extractLsb'] at hfield
    rw [hbit] at hfield
    exact absurd hfield (by decide)
  have hjirl : pcala.extractLsb' 26 6 ≠ 0b010011#6 := by
    intro heq
    have hfield := congrArg (fun field : BitVec 6 => field.getLsbD 2) heq
    simp only [BitVec.getLsbD_extractLsb'] at hfield
    rw [hbit] at hfield
    exact absurd hfield (by decide)
  apply run_eq_none
  simp only [step, hfirst, if_neg hopcode, if_neg hld, if_neg hjirl]

end LoongArch

namespace X64

/-- `ENDBR64`, and `JMP` with a `BND` prefix through a slot relative to the next instruction. -/
def step (memory : Memory) (s : State (BitVec 4)) : Option (State (BitVec 4)) :=
  if memory.bytes s.pc 4 = [0xf3, 0x0f, 0x1e, 0xfa] then
    some { s with pc := s.pc + 4 }
  else if memory.bytes s.pc 3 = [0xf2, 0xff, 0x25] then
    let address := s.pc + 7 + (memory.word (s.pc + 3)).signExtend 64
    some { pc := memory.doubleword address, x := s.x, loads := s.loads ++ [address] }
  else none

/-- A jump through a slot at a distance from the end of the instruction. -/
theorem jumpsThrough (start : Address) (distance : BitVec 32) (rest : List UInt8) :
    JumpsThrough step id 2 ([0xf3, 0x0f, 0x1e, 0xfa, 0xf2, 0xff, 0x25] ++
      leBytes 4 distance.toNat ++ rest) start (start + 11 + distance.signExtend 64) := by
  intro memory x hmemory
  have hlen : 11 ≤ ([0xf3, 0x0f, 0x1e, 0xfa, 0xf2, 0xff, 0x25] ++
      leBytes 4 distance.toNat ++ rest).length := by
    simp only [List.length_append, List.length_cons, List.length_nil, leBytes_length]
    omega
  have hbytes : ∀ offset len, offset + len ≤ 11 →
      memory.bytes (start + BitVec.ofNat 64 offset) len =
        slice ([0xf3, 0x0f, 0x1e, 0xfa, 0xf2, 0xff, 0x25] ++ leBytes 4 distance.toNat ++ rest)
          offset len :=
    fun offset len hle => hmemory.slice_eq (Nat.le_trans hle hlen)
  have hendbr : memory.bytes (start + 0#64) 4 = [0xf3, 0x0f, 0x1e, 0xfa] :=
    hbytes 0 4 (by decide)
  have hjmp : memory.bytes (start + 4) 3 = [0xf2, 0xff, 0x25] := hbytes 4 3 (by decide)
  have hjmpNot : memory.bytes (start + 4) 4 ≠ [0xf3, 0x0f, 0x1e, 0xfa] := by
    intro heq
    have hfirst : some (0xf2 : UInt8) = some 0xf3 :=
      (congrArg List.head? (hbytes 4 4 (by decide))).symm.trans (congrArg List.head? heq)
    exact absurd hfirst (by decide)
  have hdistance : memory.word (start + 4 + 3) = distance := by
    have hread : memory.bytes (start + 7) 4 = leBytes 4 distance.toNat := hbytes 7 4 (by decide)
    have hplace : start + 4 + 3 = start + 7 := BitVec.add_assoc ..
    have hlt : distance.toNat < 256 ^ 4 := distance.isLt
    rw [Memory.word, hplace, hread, readLe_leBytes_of_lt hlt, BitVec.ofNat_toNat,
      BitVec.setWidth_eq]
  have hstep : step memory ⟨start, x, []⟩ = some ⟨start + 4, x, []⟩ := by
    rw [BitVec.add_zero] at hendbr
    simp only [step, hendbr, if_true]
  have hjump : step memory ⟨start + 4, x, []⟩ = some
      ⟨memory.doubleword (start + 11 + distance.signExtend 64), x,
        [start + 11 + distance.signExtend 64]⟩ := by
    have hnext : start + 4 + 7 = start + 11 := BitVec.add_assoc ..
    simp only [step, if_neg hjmpNot, hjmp, hdistance, hnext, if_true]
    rfl
  exact ⟨_, (run_succ 1 hstep).trans (run_succ 0 hjump), rfl, rfl⟩

end X64

end JdxLinker.Isa
