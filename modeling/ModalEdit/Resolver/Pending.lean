import ModalEdit.Key.Basic

/-!
What has been typed of a command that is not complete: strokes that may still become a binding, a count
before and a count after the operator, and a register. The two counts multiply when the command is
complete (`2d3w` takes six words), and no count exceeds 999999.
-/

set_option autoImplicit false

namespace ModalEdit

def maxCount : Nat := 999999

structure PendingInput where
  keys : Keys := []
  countBefore : Option Nat := none
  countAfter : Option Nat := none
  register : Option Char := none
  awaitingRegister : Bool := false
  deriving DecidableEq, Repr

namespace PendingInput

/-- The count of the present phase: after the operator if there is one. -/
def count (p : PendingInput) (operatorActive : Bool) : Option Nat :=
  if operatorActive then p.countAfter else p.countBefore

def pushDigit (p : PendingInput) (digit : Nat) (operatorActive : Bool) : PendingInput :=
  let value := min ((p.count operatorActive).getD 0 * 10 + digit) maxCount
  if operatorActive then { p with countAfter := some value } else { p with countBefore := some value }

def hasCount (p : PendingInput) (operatorActive : Bool) : Bool := (p.count operatorActive).isSome

/-- The product of the counts that were typed, if any was. -/
def totalCount (p : PendingInput) : Option Nat :=
  match p.countBefore, p.countAfter with
  | none, none => none
  | first, second => some (min (first.getD 1 * second.getD 1) maxCount)

def clearCounts (p : PendingInput) : PendingInput := { p with countBefore := none, countAfter := none }

def setRegister (p : PendingInput) (name : Char) : PendingInput :=
  { p with register := some name, awaitingRegister := false }

def isEmpty (p : PendingInput) : Bool := p == {}

end PendingInput

end ModalEdit
