import ModalEdit.Text.Column

/-!
Motions along a line, between lines, and to a character on the line. Whether a caret may rest just past
the last character of a line is up to the caller.
-/

set_option autoImplicit false

namespace ModalEdit.Text

def left (t : Text) (offset count : Nat) : Nat := max (t.lineStart (t.lineOf offset)) (offset - count)

def right (t : Text) (offset count : Nat) (allowEnd : Bool) : Nat :=
  min (offset + count) (t.lastCaretOffset (t.lineOf offset) allowEnd)

def startOfLine (t : Text) (offset : Nat) : Nat := t.lineStart (t.lineOf offset)

def indentOfLine (t : Text) (offset : Nat) : Nat := t.firstNonBlank (t.lineOf offset)

/-- The end of the line that lies `count - 1` lines down. -/
def endOfLine (t : Text) (offset count : Nat) (allowEnd : Bool) : Nat :=
  t.lastCaretOffset (min (t.lineOf offset + (count - 1)) t.lastLine) allowEnd

def indentOfLineNumber (t : Text) (line : Nat) : Nat := t.firstNonBlank (min line t.lastLine)

/-- Lines down, or up where negative, towards a column; none if there is no such line. -/
def vertical (t : Text) (offset : Nat) (delta : Int) (goal : GoalColumn) (allowEnd : Bool) :
    Option Nat :=
  let target := (t.lineOf offset : Int) + delta
  if target < 0 ∨ (t.lineCount : Int) ≤ target then none
  else some (goal.offsetOn t target.toNat allowEnd)

/-- The index of the occurrence that a count from one asks for. -/
def indexOfNth? (target : Char) : Nat → List Char → Option Nat
  | _, [] => none
  | count, c :: rest =>
    if c = target then
      if count ≤ 1 then some 0 else (indexOfNth? target (count - 1) rest).map (· + 1)
    else (indexOfNth? target count rest).map (· + 1)

inductive Direction where
  | forward
  | backward
  deriving DecidableEq, Repr

/-- The occurrence of a character on the line that a count asks for, to either side of an offset; with
`till` the character before it in the direction of the search. -/
def findChar? (t : Text) (offset : Nat) (target : Char) (count : Nat) (direction : Direction)
    (till : Bool) : Option Nat :=
  let line := t.lineOf offset
  match direction with
  | .forward =>
    (indexOfNth? target count ((t.take (t.lineEnd line)).drop (offset + 1))).map fun index ↦
      if till then offset + index else offset + 1 + index
  | .backward =>
    (indexOfNth? target count ((t.take offset).drop (t.lineStart line)).reverse).map fun index ↦
      if till then min offset t.length - index else min offset t.length - 1 - index

end ModalEdit.Text
