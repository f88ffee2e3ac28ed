import MetricHistory.World

/-!
# Progress displays

A stage of a collection shows its progress in a display, which opens with the first step that is
reported and is finished once.  `World.display` is the label of the display that is open.
-/

namespace MetricHistory

/-- What happens to displays. -/
inductive DisplayEvent where
  /-- A display opens for a number of steps, which is not known when it is `none`. -/
  | opened (label : Text) (total : Option Nat)
  /-- A display shows the number of steps that are done. -/
  | advanced (label : Text) (done : Nat)
  /-- A display is finished, with the failure of its stage. -/
  | finished (label : Text) (failure : Option Failure)

/-- What is told of displays; `none` when there are none. -/
abbrev DisplayHook (σ : Type) := Option (DisplayEvent → Action σ Unit)

namespace DisplayHook

variable {σ : Type}

/-- Opens the display of a stage unless it is open. -/
def openOnce (hook : DisplayHook σ) (label : Text) (total : Option Nat) : Action σ Unit := do
  match hook with
  | none => return
  | some tell =>
    if (← get).display.isNone then
      modify fun w => { w with display := some label }
      tell (.opened label total)

/-- Shows the number of steps that are done. -/
def advance (hook : DisplayHook σ) (label : Text) (done total : Nat) : Action σ Unit := do
  match hook with
  | none => return
  | some tell =>
    openOnce hook label (some total)
    tell (.advanced label done)

/-- Finishes the display of a stage if it is open. -/
def finish (hook : DisplayHook σ) (label : Text) (failure : Option Failure) : Action σ Unit := do
  match hook with
  | none => return
  | some tell =>
    if (← get).display.isSome then
      modify fun w => { w with display := none }
      tell (.finished label failure)

end DisplayHook

end MetricHistory
