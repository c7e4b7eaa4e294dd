/-!
Suppression of notifications. While a caret is moved on behalf of a command the surface that shows it
reports the move as if the user had made it; a guard that is locked at that time has the report dropped.
Locks nest by a count, and a token gives its lock back once, however often it is released.
-/

set_option autoImplicit false

namespace ModalEdit

/-- The number of locks held. -/
structure SuppressionGuard where
  depth : Nat := 0
  deriving DecidableEq, Repr

structure SuppressionToken where
  released : Bool := false
  deriving DecidableEq, Repr

/-- Whether an unlock met a lock to give back. -/
inductive Unlocking where
  | balanced
  | unbalanced
  deriving DecidableEq, Repr

namespace SuppressionGuard

def isLocked (g : SuppressionGuard) : Bool := 0 < g.depth

def lock (g : SuppressionGuard) : SuppressionToken × SuppressionGuard := ({}, ⟨g.depth + 1⟩)

/-- Gives back one lock. With none held it is a mistake of the caller, and nothing changes. -/
def unlock (g : SuppressionGuard) : Unlocking × SuppressionGuard :=
  match g.depth with
  | 0 => (.unbalanced, g)
  | depth + 1 => (.balanced, ⟨depth⟩)

/-- Releasing a token again does nothing; letting go of a token releases it. -/
def release (g : SuppressionGuard) (token : SuppressionToken) :
    Unlocking × SuppressionToken × SuppressionGuard :=
  if token.released then (.balanced, token, g)
  else
    let (outcome, g) := g.unlock
    (outcome, { released := true }, g)

end SuppressionGuard

end ModalEdit
