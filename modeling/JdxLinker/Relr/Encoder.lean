import JdxLinker.Elf.Class
import JdxLinker.Lib.Bits

/-!
# The RELR encoder

Relative relocations are packed as `.relr.dyn` entries: an even entry is an address, an odd entry is a
bitmap over the words that follow. The encoder is fed one address at a time and tells its caller
whether to append an entry or to overwrite the one it emitted last. The same encoder runs twice, over
offsets when space is reserved and over addresses when entries are written, so its effect is a
callback in whatever monad the caller works in.
-/

namespace JdxLinker

open U64

/-- The bitmap being filled and the range of addresses it covers. -/
structure RelrBitmap where
  rangeStart : Nat
  rangeEnd : Nat
  encoded : Nat
  deriving Repr, DecidableEq

namespace RelrBitmap

variable (C : ElfClass)

/-- The bitmap starting after `address`. -/
def after (address : Nat) : RelrBitmap :=
  let start := wrap (address + C.relrEntrySize)
  ⟨start, wrap (start + C.relrBitmapSlots * C.relrEntrySize), 1⟩

/-- The bitmap that follows after the range of this one. -/
def next (b : RelrBitmap) : RelrBitmap :=
  let addressRange := C.relrBitmapSlots * C.relrEntrySize
  ⟨wrap (b.rangeStart + addressRange), wrap (b.rangeEnd + addressRange), 1⟩

/-- Marks `address`, if it is in range and aligned to an entry. -/
def insert (b : RelrBitmap) (address : Nat) : Option RelrBitmap :=
  let offset := wrappingSub address b.rangeStart
  if ¬ (b.rangeStart ≤ address ∧ address < b.rangeEnd) ∨ offset % C.relrEntrySize ≠ 0 then
    none
  else
    some { b with encoded := b.encoded ||| 1 <<< (offset / C.relrEntrySize + 1) }

end RelrBitmap

/-- Tracks bitmap packing within one input section. -/
inductive RelrState where
  | noRun
  | addressOnly (nextBitmap : RelrBitmap)
  | withBitmap (bitmap : RelrBitmap)
  deriving Repr, DecidableEq

inductive RelrEntryEncoding where
  | new
  | update
  deriving Repr, DecidableEq

namespace RelrState

variable (C : ElfClass) {m : Type → Type} [Monad m]

/-- A new address entry, with the bitmap that may follow it. -/
def startRun (address : Nat) (encodeFn : Nat → RelrEntryEncoding → m Unit) : m RelrState := do
  encodeFn address .new
  return .addressOnly (RelrBitmap.after C address)

def encode (self : RelrState) (address : Nat) (encodeFn : Nat → RelrEntryEncoding → m Unit) :
    m RelrState :=
  match self with
  | .noRun => startRun C address encodeFn
  | .addressOnly nextBitmap =>
      match nextBitmap.insert C address with
      | some bitmap => do
          encodeFn bitmap.encoded .new
          return .withBitmap bitmap
      | none => startRun C address encodeFn
  | .withBitmap bitmap =>
      match bitmap.insert C address with
      | some bitmap => do
          encodeFn bitmap.encoded .update
          return .withBitmap bitmap
      | none =>
          -- The window has bits already, so the next one may follow it directly.
          match (bitmap.next C).insert C address with
          | some nextBitmap => do
              encodeFn nextBitmap.encoded .new
              return .withBitmap nextBitmap
          | none => startRun C address encodeFn

/-- What the encoder emits for `address`. -/
def emitted (self : RelrState) (address : Nat) : Nat × RelrEntryEncoding :=
  match self with
  | .noRun => (address, .new)
  | .addressOnly nextBitmap =>
      match nextBitmap.insert C address with
      | some bitmap => (bitmap.encoded, .new)
      | none => (address, .new)
  | .withBitmap bitmap =>
      match bitmap.insert C address with
      | some bitmap => (bitmap.encoded, .update)
      | none =>
          match (bitmap.next C).insert C address with
          | some nextBitmap => (nextBitmap.encoded, .new)
          | none => (address, .new)

/-- The state after encoding `address`. -/
def advance (self : RelrState) (address : Nat) : RelrState :=
  match self with
  | .noRun => .addressOnly (RelrBitmap.after C address)
  | .addressOnly nextBitmap =>
      match nextBitmap.insert C address with
      | some bitmap => .withBitmap bitmap
      | none => .addressOnly (RelrBitmap.after C address)
  | .withBitmap bitmap =>
      match bitmap.insert C address with
      | some bitmap => .withBitmap bitmap
      | none =>
          match (bitmap.next C).insert C address with
          | some nextBitmap => .withBitmap nextBitmap
          | none => .addressOnly (RelrBitmap.after C address)

/-- The encoder calls back exactly once, and its next state does not depend on the caller. -/
theorem encode_eq (self : RelrState) (address : Nat)
    (encodeFn : Nat → RelrEntryEncoding → m Unit) :
    self.encode C address encodeFn = do
      encodeFn (self.emitted C address).1 (self.emitted C address).2
      return self.advance C address := by
  cases self with
  | noRun => rfl
  | addressOnly nextBitmap =>
      simp only [encode, emitted, advance]
      cases nextBitmap.insert C address <;> rfl
  | withBitmap bitmap =>
      simp only [encode, emitted, advance]
      cases bitmap.insert C address with
      | some bitmap => rfl
      | none => cases (bitmap.next C).insert C address <;> rfl

end RelrState

/-- A table entry list after one callback: a new entry is appended, an update replaces the last. -/
def RelrEntryEncoding.apply (entries : List Nat) (value : Nat) : RelrEntryEncoding → List Nat
  | .new => entries ++ [value]
  | .update => entries.dropLast ++ [value]

/-- Feeds `addresses` to an encoder in state `self`. -/
def RelrState.encodeAll (C : ElfClass) {m : Type → Type} [Monad m] (self : RelrState)
    (addresses : List Nat) (encodeFn : Nat → RelrEntryEncoding → m Unit) : m RelrState :=
  addresses.foldlM (fun state address => state.encode C address encodeFn) self

/-- The entries that one run over `addresses` leaves, starting with a fresh encoder. -/
def relrRun (C : ElfClass) (addresses : List Nat) : List Nat :=
  ((RelrState.noRun.encodeAll C addresses fun value encoding =>
    modify fun entries => encoding.apply entries value : StateM (List Nat) RelrState).run []).2

end JdxLinker
