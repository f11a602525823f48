import JdxLinker.PersistentState.Compare

/-!
# Command lines with one digest

Where no argument reads like a placeholder, and only output options start like one, links with one
digest have the same arguments, apart from output files, temporary search paths and inputs.
-/

namespace JdxLinker.PersistentState

open Framing

/-! ### What is compared of a command line -/

/-- An argument, or what stands in its place. -/
inductive Part where
  | literal (argument : List UInt8)
  | output
  | temporarySearchPath
  deriving Repr, DecidableEq

def Part.bytes : Part → List UInt8
  | literal argument => argument
  | output => outputPlaceholder
  | temporarySearchPath => searchPathPlaceholder

/-- What an argument is, by the one before it. -/
inductive Position where
  | option
  | outputValue
  | searchPath
  deriving Repr, DecidableEq

section NormalForm

variable (joinsOutput : List UInt8 → Bool) (cwd : List UInt8) (inputPaths : List (List UInt8))

/-- The arguments with placeholders for output files and for temporary search paths of rustc, and
without input files. Some options are joined with their output file. -/
def normalForm : Position → List Argument → List Part
  | _, [] => []
  | .outputValue, _ :: rest => .output :: normalForm .option rest
  | .searchPath, argument :: rest =>
    (if isRustcTemporaryPath argument.bytes then .temporarySearchPath else .literal argument.bytes)
      :: normalForm .option rest
  | .option, argument :: rest =>
    if argument.bytes = text "-o" ∨ argument.bytes = text "--output" then
      .literal argument.bytes :: normalForm .outputValue rest
    else if argument.bytes = text "-L" then
      .literal argument.bytes :: normalForm .searchPath rest
    else if joinsOutput argument.bytes then
      .output :: normalForm .option rest
    else if isJoinedTemporaryPath argument.bytes then
      .temporarySearchPath :: normalForm .option rest
    else if isInputPath cwd argument.bytes inputPaths then
      normalForm .option rest
    else .literal argument.bytes :: normalForm .option rest

end NormalForm

/-- The arguments that are not values of the options before them. -/
def optionArguments : Position → List Argument → List Argument
  | _, [] => []
  | .outputValue, _ :: rest | .searchPath, _ :: rest => optionArguments .option rest
  | .option, argument :: rest =>
    argument :: optionArguments
      (if argument.bytes = text "-o" ∨ argument.bytes = text "--output" then .outputValue
        else if argument.bytes = text "-L" then .searchPath
        else .option) rest

/-- The arguments in option position that start like an output option with its value are the ones
that are joined with an output file. -/
def OnlyOutputs (joinsOutput : List UInt8 → Bool) (position : Position) (arguments : List Argument) :
    Prop :=
  ∀ argument ∈ optionArguments position arguments,
    argument.bytes ≠ text "-o" → argument.bytes ≠ text "--output" →
      (startsWith (text "--output=") argument.bytes || startsWith (text "-o") argument.bytes)
        = joinsOutput argument.bytes

/-- No argument that is kept reads like a placeholder. -/
def NoPlaceholder (parts : List Part) : Prop :=
  ∀ part ∈ parts, part ≠ .literal outputPlaceholder ∧ part ≠ .literal searchPathPlaceholder

/-! ### What is hashed -/

section Hashed

variable {joinsOutput : List UInt8 → Bool} {cwd : List UInt8} {inputPaths : List (List UInt8)}

/-- The state before an argument at the position. -/
def stateAt (hasher : List UInt8) (position : Position) : DigestState :=
  ⟨hasher, position = .outputValue, position = .searchPath⟩

theorem digestArgument_option (hasher : List UInt8) (argument : Argument) :
    digestArgument cwd inputPaths (stateAt hasher .option) argument
      = if argument.bytes = text "-o" ∨ argument.bytes = text "--output" then
          stateAt (hasher ++ frame argument.bytes) .outputValue
        else if argument.bytes = text "-L" then
          stateAt (hasher ++ frame argument.bytes) .searchPath
        else if startsWith (text "--output=") argument.bytes
            || startsWith (text "-o") argument.bytes then
          stateAt (hasher ++ frame outputPlaceholder) .option
        else if isJoinedTemporaryPath argument.bytes then
          stateAt (hasher ++ frame searchPathPlaceholder) .option
        else if isInputPath cwd argument.bytes inputPaths then stateAt hasher .option
        else stateAt (hasher ++ frame argument.bytes) .option := rfl

/-- The bytes that are hashed for the parts of a normal form. -/
def hashed (parts : List Part) : List UInt8 := (parts.map Part.bytes).flatMap frame

theorem append_hashed_cons (hasher : List UInt8) (part : Part) (parts : List Part) :
    hasher ++ hashed (part :: parts) = (hasher ++ frame part.bytes) ++ hashed parts :=
  (List.append_assoc ..).symm

/-- The bytes of the normal form are what is hashed. -/
theorem foldl_digestArgument {position : Position} {arguments : List Argument}
    (h : OnlyOutputs joinsOutput position arguments) (hasher : List UInt8) :
    (arguments.foldl (digestArgument cwd inputPaths) (stateAt hasher position)).hasher
      = hasher ++ hashed (normalForm joinsOutput cwd inputPaths position arguments) := by
  induction arguments generalizing position hasher with
  | nil => cases position <;> exact (List.append_nil hasher).symm
  | cons argument rest ih =>
      rw [List.foldl_cons]
      cases position with
      | outputValue =>
          rw [normalForm, append_hashed_cons]
          exact ih h _
      | searchPath =>
          rw [normalForm, append_hashed_cons]
          have hbytes : (if isRustcTemporaryPath argument.bytes then Part.temporarySearchPath
              else .literal argument.bytes).bytes
                = if isRustcTemporaryPath argument.bytes then searchPathPlaceholder
                  else argument.bytes := by
            split <;> rfl
          rw [hbytes]
          exact ih h _
      | option =>
          have hhead := h argument List.mem_cons_self
          have hrest : ∀ position', (if argument.bytes = text "-o" ∨ argument.bytes = text "--output"
              then Position.outputValue
              else if argument.bytes = text "-L" then .searchPath else .option) = position' →
                OnlyOutputs joinsOutput position' rest := by
            rintro _ rfl other hother
            exact h other (List.mem_cons_of_mem argument hother)
          rw [digestArgument_option, normalForm]
          by_cases houtput : argument.bytes = text "-o" ∨ argument.bytes = text "--output"
          · rw [if_pos houtput, if_pos houtput, append_hashed_cons]
            exact ih (hrest _ (if_pos houtput)) _
          · rw [if_neg houtput] at hrest
            rw [if_neg houtput, if_neg houtput]
            by_cases hsearch : argument.bytes = text "-L"
            · rw [if_pos hsearch, if_pos hsearch, append_hashed_cons]
              exact ih (hrest _ (if_pos hsearch)) _
            · have hrest := hrest _ (if_neg hsearch)
              rw [not_or] at houtput
              rw [if_neg hsearch, if_neg hsearch, hhead houtput.1 houtput.2]
              by_cases hjoined : joinsOutput argument.bytes = true
              · rw [if_pos hjoined, if_pos hjoined, append_hashed_cons]
                exact ih hrest _
              · rw [if_neg hjoined, if_neg hjoined]
                by_cases htemporary : isJoinedTemporaryPath argument.bytes = true
                · rw [if_pos htemporary, if_pos htemporary, append_hashed_cons]
                  exact ih hrest _
                · rw [if_neg htemporary, if_neg htemporary]
                  by_cases hinput : isInputPath cwd argument.bytes inputPaths = true
                  · rw [if_pos hinput, if_pos hinput]
                    exact ih hrest _
                  · rw [if_neg hinput, if_neg hinput, append_hashed_cons]
                    exact ih hrest _

/-- The literal parts are arguments. -/
theorem literal_mem_normalForm {position : Position} {arguments : List Argument}
    {literal : List UInt8}
    (h : .literal literal ∈ normalForm joinsOutput cwd inputPaths position arguments) :
    ∃ argument ∈ arguments, argument.bytes = literal := by
  induction arguments generalizing position with
  | nil => cases position <;> cases h
  | cons argument rest ih =>
      have hkeep : ∀ position', .literal literal ∈ normalForm joinsOutput cwd inputPaths position' rest →
          ∃ other ∈ argument :: rest, other.bytes = literal := by
        intro position' hmem
        obtain ⟨other, hother, hbytes⟩ := ih hmem
        exact ⟨other, List.mem_cons_of_mem argument hother, hbytes⟩
      have hliteral : .literal literal = Part.literal argument.bytes →
          ∃ other ∈ argument :: rest, other.bytes = literal :=
        fun heq => ⟨argument, List.mem_cons_self, (Part.literal.inj heq).symm⟩
      cases position with
      | outputValue =>
          rcases List.mem_cons.mp h with heq | h
          · cases heq
          · exact hkeep _ h
      | searchPath =>
          rcases List.mem_cons.mp h with heq | h
          · split at heq
            · cases heq
            · exact hliteral heq
          · exact hkeep _ h
      | option =>
          unfold normalForm at h
          split_ifs at h with houtput hsearch hjoined htemporary hinput
          · exact (List.mem_cons.mp h).elim hliteral (hkeep _)
          · exact (List.mem_cons.mp h).elim hliteral (hkeep _)
          · exact (List.mem_cons.mp h).elim (fun heq => by cases heq) (hkeep _)
          · exact (List.mem_cons.mp h).elim (fun heq => by cases heq) (hkeep _)
          · exact hkeep _ h
          · exact (List.mem_cons.mp h).elim hliteral (hkeep _)

end Hashed

/-! ### Reading the parts back -/

theorem outputPlaceholder_ne : outputPlaceholder ≠ searchPathPlaceholder := by decide

theorem bytes_inj {part part' : Part} (h : part.bytes = part'.bytes)
    (hpart : part ≠ .literal outputPlaceholder ∧ part ≠ .literal searchPathPlaceholder)
    (hpart' : part' ≠ .literal outputPlaceholder ∧ part' ≠ .literal searchPathPlaceholder) :
    part = part' := by
  cases part with
  | literal argument =>
      cases part' with
      | literal argument' => exact congrArg Part.literal h
      | output => exact absurd (congrArg Part.literal h) hpart.1
      | temporarySearchPath => exact absurd (congrArg Part.literal h) hpart.2
  | output =>
      cases part' with
      | literal argument' => exact absurd (congrArg Part.literal h.symm) hpart'.1
      | output => rfl
      | temporarySearchPath => exact absurd h outputPlaceholder_ne
  | temporarySearchPath =>
      cases part' with
      | literal argument' => exact absurd (congrArg Part.literal h.symm) hpart'.2
      | output => exact absurd h.symm outputPlaceholder_ne
      | temporarySearchPath => rfl

theorem map_bytes_inj {parts parts' : List Part} (hparts : NoPlaceholder parts)
    (hparts' : NoPlaceholder parts') (h : parts.map Part.bytes = parts'.map Part.bytes) :
    parts = parts' := by
  induction parts generalizing parts' with
  | nil => exact (List.map_eq_nil_iff.mp h.symm).symm
  | cons part parts ih =>
      cases parts' with
      | nil => cases h
      | cons part' parts' =>
          obtain ⟨hbytes, hrest⟩ := List.cons.inj h
          rw [bytes_inj hbytes (hparts part List.mem_cons_self)
              (hparts' part' List.mem_cons_self),
            ih (fun other hmem => hparts other (List.mem_cons_of_mem _ hmem))
              (fun other hmem => hparts' other (List.mem_cons_of_mem _ hmem)) hrest]

/-! ### Command lines with one digest -/

section Digest

variable {δ : Type} {hash : List UInt8 → δ} {joinsOutput : List UInt8 → Bool}
  {cwd cwd' : List UInt8} {arguments arguments' : List Argument}
  {inputPaths inputPaths' : List (List UInt8)}

theorem structureDigest_eq (h : OnlyOutputs joinsOutput .option (arguments.drop 1)) :
    structureDigest hash cwd arguments inputPaths
      = hash (hashed (normalForm joinsOutput cwd inputPaths .option (arguments.drop 1))) :=
  congrArg hash (foldl_digestArgument h [])

/-- The parts are framed by lengths that fit eight bytes. -/
theorem length_bytes_lt (part : Part)
    (h : part ∈ normalForm joinsOutput cwd inputPaths .option arguments) :
    part.bytes.length < 2 ^ 64 := by
  cases part with
  | literal literal =>
      obtain ⟨argument, -, rfl⟩ := literal_mem_normalForm h
      exact argument.length_lt
  | output => decide
  | temporarySearchPath => decide

/-- What is hashed determines the normal form. -/
theorem normalForm_eq_of_hashed_eq
    (hparts : NoPlaceholder (normalForm joinsOutput cwd inputPaths .option arguments))
    (hparts' : NoPlaceholder (normalForm joinsOutput cwd' inputPaths' .option arguments'))
    (h : hashed (normalForm joinsOutput cwd inputPaths .option arguments)
      = hashed (normalForm joinsOutput cwd' inputPaths' .option arguments')) :
    normalForm joinsOutput cwd inputPaths .option arguments
      = normalForm joinsOutput cwd' inputPaths' .option arguments' := by
  refine map_bytes_inj hparts hparts' (flatMap_frame_injective ?_ ?_ h)
  · intro bytes hbytes
    obtain ⟨part, hpart, rfl⟩ := List.mem_map.mp hbytes
    exact length_bytes_lt part hpart
  · intro bytes hbytes
    obtain ⟨part, hpart, rfl⟩ := List.mem_map.mp hbytes
    exact length_bytes_lt part hpart

end Digest

/-- A link of `a.o` to `x`, and a link of `b.o` to `y`. -/
def linkOfA : List Argument :=
  [⟨text "ld", by decide⟩, ⟨text "-o", by decide⟩, ⟨text "x", by decide⟩, ⟨text "a.o", by decide⟩]

def linkOfB : List Argument :=
  [⟨text "ld", by decide⟩, ⟨text "b.o", by decide⟩, ⟨text "-o", by decide⟩, ⟨text "y", by decide⟩]

def FORMAT_VERSION : Nat := 2

/-- The recorded link, if it is one of the same structure by the same linker. -/
def comparable (previous : Option Manifest) (linkerVersion : String) (digest : Digest) :
    Option Manifest :=
  previous.filter fun manifest =>
    manifest.formatVersion = FORMAT_VERSION && manifest.linkerVersion = linkerVersion
      && manifest.structureDigest = digest

/-- Compares a link with the one that is recorded for its output. The second result is the manifest
that is recorded, if there is something new. -/
def recordLink (hash : List UInt8 → Digest) (previous : Option Manifest) (cwd : List UInt8)
    (arguments : List Argument) (linkerVersion : String) (inputs : List InputIdentity) :
    StateObservation × Option Manifest :=
  let digest := structureDigest hash cwd arguments (inputs.map fun input => input.path.bytes)
  let previous := comparable previous linkerVersion digest
  let observation := compare previous inputs
  if previous.any fun manifest => manifest.inputs = inputs then (observation, none)
  else
    (observation, some {
      formatVersion := FORMAT_VERSION
      linkerVersion := linkerVersion
      generation := previous.elim 1 fun manifest => min (manifest.generation + 1) (2 ^ 64 - 1)
      structureDigest := digest
      inputs := inputs })

theorem compare_previousGeneration {previous : Option Manifest} {current : List InputIdentity}
    {generation : Nat} (h : (compare previous current).previousGeneration = some generation) :
    previous.isSome := by
  cases previous with
  | none => cases h
  | some previous => rfl

theorem recordLink_fst {hash : List UInt8 → Digest} (previous : Option Manifest) (cwd : List UInt8)
    (arguments : List Argument) (linkerVersion : String) (inputs : List InputIdentity) :
    (recordLink hash previous cwd arguments linkerVersion inputs).1
      = compare (comparable previous linkerVersion
          (structureDigest hash cwd arguments (inputs.map fun input => input.path.bytes))) inputs := by
  unfold recordLink
  dsimp only
  split <;> rfl

/-- A link that is compared with a recorded one has its digest. -/
theorem recordLink_structureDigest {hash : List UInt8 → Digest} {previous : Manifest}
    {cwd : List UInt8} {arguments : List Argument} {linkerVersion : String}
    {inputs : List InputIdentity} {generation : Nat}
    (h : (recordLink hash (some previous) cwd arguments linkerVersion inputs).1.previousGeneration
      = some generation) :
    previous.structureDigest
      = structureDigest hash cwd arguments (inputs.map fun input => input.path.bytes) := by
  rw [recordLink_fst] at h
  obtain ⟨manifest, hmanifest⟩ := Option.isSome_iff_exists.mp (compare_previousGeneration h)
  obtain ⟨hsome, haccepted⟩ := Option.filter_eq_some_iff.mp hmanifest
  cases hsome
  rw [Bool.and_eq_true, decide_eq_true_eq] at haccepted
  exact haccepted.2

end JdxLinker.PersistentState
