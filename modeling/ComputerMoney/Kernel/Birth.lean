/-
# Kernel.Birth -- the checkpoint of a new wallet

A setup that made a wallet pins the wallet's first pass to the tip of that moment: a new
wallet has no history, and a first pass without a checkpoint starts `startLookback` below
whatever the tip is by then.  It is a best effort: a failure is warned of and goes no further.

What `checkpoint_path` says of the wallet's directory and whether the file is there are arguments
here; the source looks before it asks for the tip.
-/
import ComputerMoney.Kernel.Scan

namespace ComputerMoney.Kernel

set_option autoImplicit false

open Theory

/-- `scan::try_anchor_birth`. -/
def tryAnchorBirth (path : Except Error Unit) (present : Bool) : Prog Unit := do
  .ofExcept path
  if present then .pure ()
  else do
    let tip ← tipHeight
    saveCheckpoint tip

def birthWarning (e : Error) : String :=
  "cm: WARN could not anchor scan birth height (" ++ e ++ "); the first scan will use the " ++
    toString startLookback ++ "-block lookback"

/-- `scan::anchor_birth`. -/
def anchorBirth (path : Except Error Unit) (present : Bool) : Prog Unit := do
  match ← (tryAnchorBirth path present).attempt with
  | .ok () => return ()
  | .error e => eprintln (birthWarning e)

end ComputerMoney.Kernel
