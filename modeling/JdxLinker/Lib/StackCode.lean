import JdxLinker.Lib.Uleb

/-!
# Straight-line stack code

Function bodies that call functions and drop results, as bytes and as instructions, and their
validation: the operand stack is followed by its types, which after an unreachable point may be any
types at all.
-/

namespace JdxLinker.StackCode

structure FuncType (V : Type) where
  params : List V
  results : List V
  deriving DecidableEq, Repr

inductive Instr where
  | unreachable
  | drop
  | call (function : Nat)
  deriving DecidableEq, Repr

/-! ### Decoding -/

/-- The instructions before the `end` that closes the bytes. -/
def decodeInstrs : Nat → List UInt8 → Option (List Instr)
  | 0, _ => none
  | fuel + 1, bytes =>
    match bytes with
    | [] => none
    | opcode :: rest =>
      if opcode = 0x0b then if rest = [] then some [] else none
      else if opcode = 0x00 then (decodeInstrs fuel rest).map (.unreachable :: ·)
      else if opcode = 0x1a then (decodeInstrs fuel rest).map (.drop :: ·)
      else if opcode = 0x10 then
        (Uleb.decode rest).bind fun decoded =>
          (decodeInstrs fuel decoded.2).map (.call decoded.1 :: ·)
      else none

/-- The instructions of a body without locals. -/
def decodeBody : List UInt8 → Option (List Instr)
  | 0x00 :: bytes => decodeInstrs bytes.length bytes
  | _ => none

theorem decodeInstrs_end (fuel : Nat) : decodeInstrs (fuel + 1) [0x0b] = some [] := rfl

theorem decodeInstrs_drop (fuel : Nat) (rest : List UInt8) :
    decodeInstrs (fuel + 1) (0x1a :: rest) = (decodeInstrs fuel rest).map (.drop :: ·) := rfl

theorem decodeInstrs_call (fuel function : Nat) (rest : List UInt8) :
    decodeInstrs (fuel + 1) (0x10 :: (Uleb.encode function ++ rest))
      = (decodeInstrs fuel rest).map (.call function :: ·) := by
  show (Uleb.decode (Uleb.encode function ++ rest)).bind _ = _
  rw [Uleb.decode_encode]
  rfl

theorem decodeInstrs_drops (fuel count : Nat) (rest : List UInt8) :
    decodeInstrs (fuel + count) (List.replicate count 0x1a ++ rest)
      = (decodeInstrs fuel rest).map (List.replicate count .drop ++ ·) := by
  induction count with
  | zero => simp
  | succ count ih =>
      rw [List.replicate_succ, List.cons_append, ← Nat.add_assoc, decodeInstrs_drop, ih,
        Option.map_map, List.replicate_succ]
      rfl

/-- With enough fuel, more fuel makes no difference. -/
theorem decodeInstrs_mono {fuel fuel' : Nat} {bytes : List UInt8} {instrs : List Instr}
    (hle : fuel ≤ fuel') (h : decodeInstrs fuel bytes = some instrs) :
    decodeInstrs fuel' bytes = some instrs := by
  induction fuel generalizing fuel' bytes instrs with
  | zero => cases h
  | succ fuel ih =>
      obtain ⟨fuel', rfl⟩ : ∃ n, fuel' = n + 1 := ⟨fuel' - 1, by omega⟩
      have hle : fuel ≤ fuel' := by omega
      cases bytes with
      | nil => cases h
      | cons opcode rest =>
          rw [decodeInstrs] at h ⊢
          split
          · next hend =>
              rw [if_pos hend] at h
              exact h
          · next hend =>
              rw [if_neg hend] at h
              split
              · next hop =>
                  rw [if_pos hop] at h
                  obtain ⟨tail, htail, rfl⟩ := Option.map_eq_some_iff.mp h
                  rw [ih hle htail]
                  rfl
              · next hop =>
                  rw [if_neg hop] at h
                  split
                  · next hop =>
                      rw [if_pos hop] at h
                      obtain ⟨tail, htail, rfl⟩ := Option.map_eq_some_iff.mp h
                      rw [ih hle htail]
                      rfl
                  · next hop =>
                      rw [if_neg hop] at h
                      split
                      · next hop =>
                          rw [if_pos hop] at h
                          obtain ⟨decoded, hdecoded, h⟩ := Option.bind_eq_some_iff.mp h
                          obtain ⟨tail, htail, rfl⟩ := Option.map_eq_some_iff.mp h
                          rw [hdecoded, Option.bind_some, ih hle htail]
                          rfl
                      · next hop =>
                          rw [if_neg hop] at h
                          cases h

/-! ### Validation -/

section Validation

variable {V : Type} (subtype : V → V → Bool)

/-- The types of the operands, the top one first. Below them there may be anything once a point was
passed that is not reached. -/
structure Operands (V : Type) where
  known : List V
  polymorphic : Bool
  deriving DecidableEq, Repr

namespace Operands

/-- Takes an operand of any type off the stack. -/
def popAny (s : Operands V) : Option (Operands V) :=
  match s.known with
  | _ :: known => some { s with known }
  | [] => if s.polymorphic then some s else none

/-- Takes an operand off the stack that is used as one of a type. -/
def pop (s : Operands V) (expected : V) : Option (Operands V) :=
  match s.known with
  | actual :: known => if subtype actual expected then some { s with known } else none
  | [] => if s.polymorphic then some s else none

/-- Takes several operands off the stack, the top one first. -/
def popAll (s : Operands V) : List V → Option (Operands V)
  | [] => some s
  | expected :: rest => (s.pop subtype expected).bind fun s => s.popAll rest

end Operands

variable (types : Nat → Option (FuncType V))

/-- The effect of an instruction on the operand types. -/
def step (s : Operands V) : Instr → Option (Operands V)
  | .unreachable => some ⟨[], true⟩
  | .drop => s.popAny
  | .call function =>
    (types function).bind fun ty =>
      (s.popAll subtype ty.params.reverse).map fun s =>
        { s with known := ty.results.reverse ++ s.known }

def run (s : Operands V) : List Instr → Option (Operands V)
  | [] => some s
  | instr :: instrs => (step subtype types s instr).bind fun s => run s instrs

/-- The instructions leave the results of the type on the stack, and nothing else. -/
def Validates (ty : FuncType V) (instrs : List Instr) : Prop :=
  ∃ s s', run subtype types ⟨[], false⟩ instrs = some s ∧
    s.popAll subtype ty.results.reverse = some s' ∧ s'.known = []

/-- The bytes are a body that validates against the type. -/
def ValidBody (ty : FuncType V) (bytes : List UInt8) : Prop :=
  ∃ instrs, decodeBody bytes = some instrs ∧ Validates subtype types ty instrs

theorem run_append (s : Operands V) (instrs instrs' : List Instr) :
    run subtype types s (instrs ++ instrs')
      = (run subtype types s instrs).bind fun s => run subtype types s instrs' := by
  induction instrs generalizing s with
  | nil => rfl
  | cons instr instrs ih =>
      rw [List.cons_append, run, run]
      cases step subtype types s instr with
      | none => rfl
      | some next => exact ih next

/-- A point that is not reached ends a body of any type. -/
theorem validates_unreachable (ty : FuncType V) :
    Validates subtype types ty [.unreachable] := by
  refine ⟨⟨[], true⟩, ⟨[], true⟩, rfl, ?_, rfl⟩
  generalize ty.results.reverse = expected
  induction expected with
  | nil => rfl
  | cons first rest ih => exact ih

theorem run_drops (known : List V) (count : Nat) :
    run subtype types ⟨known, false⟩ (List.replicate count .drop)
      = if count ≤ known.length then some ⟨known.drop count, false⟩ else none := by
  induction count generalizing known with
  | zero => simp [run]
  | succ count ih =>
      rw [List.replicate_succ, run, step]
      cases known with
      | nil => simp [Operands.popAny]
      | cons first known => simpa [Operands.popAny] using ih known

/-- Taking operands off a stack that ends does not make it one that does not. -/
theorem popAll_polymorphic {s s' : Operands V} {expected : List V}
    (h : s.popAll subtype expected = some s') (hs : s.polymorphic = false) :
    s'.polymorphic = false := by
  induction expected generalizing s with
  | nil =>
      cases h
      exact hs
  | cons first rest ih =>
      obtain ⟨next, hnext, h⟩ := Option.bind_eq_some_iff.mp h
      refine ih h ?_
      rw [Operands.pop] at hnext
      split at hnext
      · split at hnext
        · cases hnext
          exact hs
        · cases hnext
      · rw [hs, if_neg Bool.false_ne_true] at hnext
        cases hnext

/-! ### Sequences of calls -/

/-- Calls whose results are dropped by number keep the stack balanced: each finds its parameters on
it, and in the end nothing is left. -/
def Balanced : List V → List (FuncType V × Nat) → Prop
  | known, [] => known = []
  | known, (ty, count) :: calls =>
    ∃ below : List V, Operands.popAll subtype ⟨known, false⟩ ty.params.reverse = some ⟨below, false⟩ ∧
      count ≤ (ty.results.reverse ++ below).length ∧
      Balanced ((ty.results.reverse ++ below).drop count) calls

/-- The instructions that call functions one after the other and drop results of each. -/
def callSequence (calls : List (Nat × Nat)) : List Instr :=
  calls.flatMap fun call => .call call.1 :: List.replicate call.2 .drop

/-- The stack ends empty after a sequence of calls if and only if the calls are balanced. -/
theorem run_callSequence_iff {calls : List (Nat × Nat)} {signatures : List (FuncType V × Nat)}
    (h : List.Forall₂ (fun call signature => types call.1 = some signature.1 ∧
      call.2 = signature.2) calls signatures) (known : List V) :
    run subtype types ⟨known, false⟩ (callSequence calls) = some ⟨[], false⟩ ↔
      Balanced subtype known signatures := by
  induction h generalizing known with
  | nil => simp [callSequence, run, Balanced]
  | @cons call signature calls signatures hcall _ ih =>
      obtain ⟨ty, count⟩ := signature
      obtain ⟨htype, rfl⟩ := hcall
      rw [callSequence, List.flatMap_cons, ← callSequence, List.cons_append, run, step, htype,
        Option.bind_some, Balanced]
      cases hpop : Operands.popAll subtype ⟨known, false⟩ ty.params.reverse with
      | none => simp
      | some below =>
          obtain ⟨below, polymorphic⟩ := below
          obtain rfl : polymorphic = false := popAll_polymorphic subtype hpop rfl
          rw [Option.map_some, Option.bind_some, run_append, run_drops]
          split
          · next hcount =>
              rw [Option.bind_some, ih]
              constructor
              · intro hbalanced
                exact ⟨below, rfl, hcount, hbalanced⟩
              · rintro ⟨below', hbelow, -, hbalanced⟩
                cases hbelow
                exact hbalanced
          · next hcount =>
              constructor
              · intro hnone
                cases hnone
              · rintro ⟨below', hbelow, hcount', -⟩
                cases hbelow
                exact absurd hcount' hcount

theorem run_polymorphic_callSequence {calls : List (Nat × Nat)} {known : List V}
    {s : Operands V} (h : run subtype types ⟨known, false⟩ (callSequence calls) = some s) :
    s.polymorphic = false := by
  induction calls generalizing known with
  | nil =>
      cases h
      rfl
  | cons call calls ih =>
      rw [callSequence, List.flatMap_cons, ← callSequence, List.cons_append, run, step] at h
      obtain ⟨next, hnext, h⟩ := Option.bind_eq_some_iff.mp h
      obtain ⟨ty, -, hnext⟩ := Option.bind_eq_some_iff.mp hnext
      obtain ⟨⟨below, polymorphic⟩, hpop, rfl⟩ := Option.map_eq_some_iff.mp hnext
      obtain rfl : polymorphic = false := popAll_polymorphic subtype hpop rfl
      rw [run_append, run_drops] at h
      split at h
      · exact ih h
      · cases h

/-- Calls validate as a body without results if and only if they are balanced. -/
theorem validates_callSequence_iff {calls : List (Nat × Nat)}
    {signatures : List (FuncType V × Nat)}
    (h : List.Forall₂ (fun call signature => types call.1 = some signature.1 ∧
      call.2 = signature.2) calls signatures) :
    Validates subtype types ⟨[], []⟩ (callSequence calls) ↔ Balanced subtype [] signatures := by
  rw [← run_callSequence_iff subtype types h]
  constructor
  · rintro ⟨⟨known, polymorphic⟩, s', hrun, hpop, hempty⟩
    cases hpop
    obtain rfl : polymorphic = false := run_polymorphic_callSequence subtype types hrun
    obtain rfl : known = [] := hempty
    exact hrun
  · intro hrun
    exact ⟨_, _, hrun, rfl, rfl⟩

/-- Functions without parameters whose results are all dropped leave the stack as it was. -/
theorem balanced_of_params_nil {signatures : List (FuncType V × Nat)}
    (h : ∀ signature ∈ signatures,
      signature.1.params = [] ∧ signature.2 = signature.1.results.length) :
    Balanced subtype [] signatures := by
  induction signatures with
  | nil => rfl
  | cons signature signatures ih =>
      obtain ⟨ty, count⟩ := signature
      obtain ⟨hparams, hcount⟩ := h _ List.mem_cons_self
      simp only at hparams hcount
      refine ⟨[], ?_, ?_, ?_⟩
      · rw [hparams]
        rfl
      · simp [hcount]
      · rw [hcount, List.append_nil, ← List.length_reverse, List.drop_length]
        exact ih fun other hother => h other (List.mem_cons_of_mem _ hother)

/-- A call whose results are kept is balanced only where there are none, and no parameters. -/
theorem balanced_single_iff {ty : FuncType V} :
    Balanced subtype [] [(ty, 0)] ↔ ty.params = [] ∧ ty.results = [] := by
  constructor
  · rintro ⟨below, hpop, -, hempty⟩
    obtain ⟨hresults, rfl⟩ := List.append_eq_nil_iff.mp hempty
    refine ⟨?_, List.reverse_eq_nil_iff.mp hresults⟩
    cases hparams : ty.params.reverse with
    | nil => exact List.reverse_eq_nil_iff.mp hparams
    | cons first rest =>
        rw [hparams] at hpop
        cases hpop
  · rintro ⟨hparams, hresults⟩
    refine ⟨[], ?_, Nat.zero_le _, ?_⟩
    · rw [hparams]
      rfl
    · rw [hresults]
      rfl

end Validation

end JdxLinker.StackCode
