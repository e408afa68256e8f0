import Mathlib.Tactic

/-!
# Exceptions

The `std::runtime_error`s that the library throws, as an enumeration, with the text that `what()`
returns for each. A function that may throw returns an `Outcome`, which holds the state that the
object is left in either way.
-/

namespace RvnSyncPoint

/-- A number as `std::showbase << std::hex` prints it. -/
def showHex (n : ℕ) : String :=
  if n = 0 then "0" else "0x" ++ String.ofList (Nat.toDigits 16 n)

/-- The exceptions thrown by the readers. -/
inductive RuntimeError where
  /-- A file does not begin with the magic number of its format. -/
  | magic (expected actual : ℕ)
  /-- A sync data file does not begin with its magic number. -/
  | dataMagic (expected actual : ℕ)
  /-- A sync file has a version above the last one handled. -/
  | version (expected actual : ℕ)
  /-- Two successive interrupts with different registers. -/
  | duplicatedInterrupt (position : ℕ)
  /-- The point that follows an interrupt has different registers. -/
  | interruptContext (position : ℕ)
  /-- An event that does not end with a VMEnter. -/
  | vmexitWithoutVmenter (position : ℕ)
  | emulationWithImmediateInterrupt
  | cr2ChangeWithoutPageFault
  | faultThatShouldWait
deriving DecidableEq

/-- The text of an exception. -/
def RuntimeError.what : RuntimeError → String
  | .magic expected actual =>
    "Magic number should be " ++ showHex expected ++ " but is actually " ++ showHex actual
  | .dataMagic expected actual =>
    "Magic number for the data file should be " ++ showHex expected ++ " but is actually " ++
      showHex actual
  | .version expected actual =>
    "This version number is not handled: " ++ toString actual ++ ", expecting version " ++
      toString expected
  | .duplicatedInterrupt position =>
    "Malformed scenario: context should be identical for duplicated interrupt at $" ++
      toString position
  | .interruptContext position =>
    "Malformed scenario: context should be identical at $" ++ toString position
  | .vmexitWithoutVmenter position =>
    "Malformed scenario: VMExit without a VMEnter at $" ++ toString position
  | .emulationWithImmediateInterrupt =>
    "Instruction emulation but immediate interrupt combined: not handled"
  | .cr2ChangeWithoutPageFault => "CR2 change with non page-fault interrupt: not supported"
  | .faultThatShouldWait => "CPU Fault that should wait doesn't make sense"

/-- What a call that ends did: it returned a value, or threw an exception. Either way it left the
object in some state. -/
inductive Outcome (σ α : Type) where
  | returned (a : α) (s : σ)
  | thrown (e : RuntimeError) (s : σ)

/-- The state that a call left the object in. -/
def Outcome.state {σ α : Type} : Outcome σ α → σ
  | .returned _ s => s
  | .thrown _ s => s

/-- Two outcomes are related: both calls returned, with values related by `Q`, or both threw the same
exception; and the states that they left are related by `R`. -/
inductive Outcome.Rel {σ τ α β : Type} (Q : α → β → Prop) (R : σ → τ → Prop) :
    Outcome σ α → Outcome τ β → Prop
  | returned {a : α} {b : β} {s : σ} {t : τ} (h : Q a b) (hs : R s t) :
    Rel Q R (.returned a s) (.returned b t)
  | thrown {e : RuntimeError} {s : σ} {t : τ} (hs : R s t) : Rel Q R (.thrown e s) (.thrown e t)

end RvnSyncPoint
