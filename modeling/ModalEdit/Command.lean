import ModalEdit.Keymap.Trie

/-!
Commands: what a complete key sequence asks for. An action comes with the count, the register and the
character that were typed for it; an operator also with the motion or text object that it acts over.
-/

set_option autoImplicit false

namespace ModalEdit

inductive CommandKind where
  | motion
  | operator
  | textObject
  | other
  deriving DecidableEq, Repr

structure CommandFlags where
  exclusive : Bool := false
  inclusive : Bool := false
  linewise : Bool := false
  characterwise : Bool := false
  /-- Takes one more stroke as its character. -/
  expectsChar : Bool := false
  /-- Keeps the column that the caret aims at. -/
  vertical : Bool := false
  /-- Lets the following vertical motions go to the ends of lines. -/
  stickyEol : Bool := false
  deriving DecidableEq, Repr

/-- An action with what was typed for it. -/
structure ActionCall where
  kind : CommandKind
  action : ActionId
  /-- The count as typed. -/
  rawCount : Option Nat := none
  register : Option Char := none
  char : Option Char := none
  flags : CommandFlags := {}
  keys : Keys := []
  deriving DecidableEq, Repr

namespace ActionCall

/-- The count that the action works with: one if none was typed, and never zero. -/
def count (c : ActionCall) : Nat := max (c.rawCount.getD 1) 1

end ActionCall

/-- An action, for an operator with the motion or text object it acts over. -/
structure Command extends ActionCall where
  argument : Option ActionCall := none
  deriving DecidableEq, Repr

end ModalEdit
