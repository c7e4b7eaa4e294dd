import ModalEdit.Text.Line
import ModalEdit.Unicode.Width

/-!
Display columns. A tab reaches to the next multiple of eight; any other character takes the cells of its
width. A vertical motion aims at a column rather than an offset, so that it goes where the eye expects
across tabs and wide characters.
-/

set_option autoImplicit false

namespace ModalEdit

def tabStop : Nat := 8

namespace Text

/-- The column after a character that begins at a column. -/
def nextColumn (column : Nat) (c : Char) : Nat :=
  if c = '\t' then (column / tabStop + 1) * tabStop else column + Unicode.charWidth c

/-- The column at which the character at an offset is shown. -/
def visualColumn (t : Text) (offset : Nat) : Nat :=
  let line := t.lineOf offset
  (t.slice (t.lineStart line) (min offset (t.lineEnd line))).foldl nextColumn 0

/-- How many characters end at or before a column, from a column on; none if all do. -/
def charsBefore? (target : Nat) : Nat → List Char → Option Nat
  | _, [] => none
  | column, c :: rest =>
    if target < nextColumn column c then some 0
    else (charsBefore? target (nextColumn column c) rest).map (· + 1)

/-- The offset on a line whose character covers a column, or the last one for carets where the line
is too short. -/
def offsetAtColumn (t : Text) (line column : Nat) (allowEnd : Bool) : Nat :=
  match charsBefore? column 0 (t.lineText line) with
  | some count => t.lineStart line + count
  | none => t.lastCaretOffset line allowEnd

end Text

/-- The column a caret keeps across vertical motions: a display column, or the end of each line. -/
inductive GoalColumn where
  | cell (column : Nat)
  | lineEnd
  deriving DecidableEq, Repr

namespace GoalColumn

def offsetOn (goal : GoalColumn) (t : Text) (line : Nat) (allowEnd : Bool) : Nat :=
  match goal with
  | cell column => t.offsetAtColumn line column allowEnd
  | lineEnd => t.lastCaretOffset line allowEnd

end GoalColumn

end ModalEdit
