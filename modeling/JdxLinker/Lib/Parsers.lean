import Mathlib

/-!
# Parsers of byte strings

Parsers that read from the front of a text. A parser that fails leaves its caller to try another at
the same place.
-/

namespace JdxLinker

abbrev Text := List UInt8

/-- A parser yields a value and the text it has left, or fails. -/
abbrev Parser (α : Type) := StateT Text Option α

namespace Parser

variable {α β : Type} {p : Parser α} {f : α → Parser β} {input rest : Text} {a : α}

/-- The bytes of a string literal. -/
def bytes (string : String) : Text := string.toUTF8.data.toList

/-- A parser that always fails. -/
def fail : Parser α := fun _ => none

/-- What is left to read. -/
def remaining : Parser Text := fun input => some (input, input)

def literal (token : Text) : Parser Unit := fun input =>
  if token.isPrefixOf input then some ((), input.drop token.length) else none

/-- Tries a parser, and reads nothing where it fails. -/
def opt (p : Parser α) : Parser (Option α) := fun input =>
  match p input with
  | some (a, rest) => some (some a, rest)
  | none => some (none, input)

/-- Succeeds, without reading, where the parser fails. -/
def notFollowedBy (p : Parser α) : Parser Unit := fun input =>
  match p input with
  | some _ => none
  | none => some ((), input)

/-- The first of the parsers that succeeds. -/
def alt : List (Parser α) → Parser α
  | [] => fail
  | p :: ps => fun input =>
      match p input with
      | some result => some result
      | none => alt ps input

/-- A value that a token stands for. -/
def value (token : Text) (a : α) : Parser α := do
  literal token
  pure a

/-- The longest front of bytes with a property, which is not empty. -/
def takeWhile1 (pred : UInt8 → Bool) : Parser Text := fun input =>
  match input.takeWhile pred with
  | [] => none
  | taken => some (taken, input.dropWhile pred)

/-- What comes before the first occurrence of a token, where that is at least `atLeast` bytes. -/
def takeUntil (atLeast : Nat) (token : Text) : Parser Text := fun input =>
  match input.tails.findIdx? (token.isPrefixOf ·) with
  | some index =>
      if atLeast ≤ index then some (input.take index, input.drop index) else none
  | none => none

def isSpace (c : UInt8) : Bool := c == 0x20 || c == 0x09 || c == 0x0d || c == 0x0a

/-- A text without the blanks at its front. -/
def skip (input : Text) : Text := input.dropWhile isSpace

def multispace0 : Parser Unit := fun input => some ((), skip input)

/-! ### Running parsers -/

theorem bind_of_some (h : p input = some (a, rest)) : (p >>= f) input = f a rest := by
  simp only [bind, StateT.bind, h, Option.bind_some]

theorem bind_of_none (h : p input = none) : (p >>= f) input = none := by
  simp only [bind, StateT.bind, h, Option.bind_none]

@[simp] theorem pure_run (a : α) (input : Text) : (pure a : Parser α) input = some (a, input) := rfl

@[simp] theorem multispace0_bind (f : Unit → Parser β) (input : Text) :
    (multispace0 >>= f) input = f () (skip input) := rfl

@[simp] theorem remaining_bind (f : Text → Parser β) (input : Text) :
    (remaining >>= f) input = f input input := rfl

theorem literal_append (token rest : Text) : literal token (token ++ rest) = some ((), rest) := by
  rw [literal, if_pos (List.isPrefixOf_iff_prefix.mpr (List.prefix_append token rest)),
    List.drop_left]

theorem literal_cons_of_ne {c d : UInt8} (token rest : Text) (h : c ≠ d) :
    literal (c :: token) (d :: rest) = none := by
  have hne : (c == d) = false := by simpa using h
  simp [literal, List.isPrefixOf, hne]

@[simp] theorem literal_cons_nil (c : UInt8) (token : Text) : literal (c :: token) [] = none := rfl

theorem opt_of_some (h : p input = some (a, rest)) : opt p input = some (some a, rest) := by
  rw [opt, h]

theorem opt_of_none (h : p input = none) : opt p input = some (none, input) := by
  rw [opt, h]

theorem alt_of_some {ps : List (Parser α)} (h : p input = some (a, rest)) :
    alt (p :: ps) input = some (a, rest) := by
  simp only [alt, h]

theorem alt_of_none {ps : List (Parser α)} (h : p input = none) :
    alt (p :: ps) input = alt ps input := by
  simp only [alt, h]

theorem takeWhile1_append {pred : UInt8 → Bool} {taken : Text} (hne : taken ≠ [])
    (htaken : ∀ c ∈ taken, pred c) (hrest : ∀ c ∈ rest.head?, pred c = false) :
    takeWhile1 pred (taken ++ rest) = some (taken, rest) := by
  have hstop : rest.takeWhile pred = [] ∧ rest.dropWhile pred = rest := by
    cases rest with
    | nil => exact ⟨rfl, rfl⟩
    | cons c rest =>
        have hc := hrest c rfl
        simp [hc]
  have htake : (taken ++ rest).takeWhile pred = taken := by
    rw [List.takeWhile_append_of_pos htaken, hstop.1, List.append_nil]
  have hdrop : (taken ++ rest).dropWhile pred = rest := by
    rw [List.dropWhile_append_of_pos htaken, hstop.2]
  rw [takeWhile1, htake, hdrop]
  cases taken with
  | nil => exact absurd rfl hne
  | cons c taken => rfl

/-! ### Blanks -/

def Blank (w : Text) : Prop := ∀ c ∈ w, isSpace c

theorem Blank.nil : Blank [] := by simp [Blank]

def blank : Text := [0x20]

theorem Blank.blank : Blank blank := by simp [Blank, Parser.blank, isSpace]

theorem skip_append_of_blank {w : Text} (hw : Blank w) (rest : Text) :
    skip (w ++ rest) = skip rest := List.dropWhile_append_of_pos hw

theorem skip_cons_of_not_space {c : UInt8} (h : isSpace c = false) (rest : Text) :
    skip (c :: rest) = c :: rest := by
  rw [skip, List.dropWhile_cons, h]
  rfl

@[simp] theorem skip_skip (input : Text) : skip (skip input) = skip input := by
  induction input with
  | nil => rfl
  | cons c input ih =>
      cases h : isSpace c with
      | true =>
          have hskip : skip (c :: input) = skip input := by
            rw [skip, List.dropWhile_cons, h]
            rfl
          rw [hskip, ih]
      | false => rw [skip_cons_of_not_space h, skip_cons_of_not_space h]

end Parser

end JdxLinker
