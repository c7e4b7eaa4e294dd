import ModalEdit.Caret
import ModalEdit.Command
import ModalEdit.Mode.Basic
import ModalEdit.Text.Step
import ModalEdit.Text.Word

/-!
The built-in motions: from where a caret is to where it goes, or nowhere if the motion fails there. A
motion by characters or words fails if it would leave the caret where it is.
-/

set_option autoImplicit false

namespace ModalEdit

/-- What a motion or a text object may look at. -/
structure MotionContext where
  text : Text
  caret : CaretId
  offset : Nat
  /-- The column that a vertical motion aims at. -/
  goal : GoalColumn
  command : ActionCall
  mode : Mode
  /-- Whether an operator waits for the outcome. -/
  operatorPending : Bool

namespace MotionContext

def count (ctx : MotionContext) : Nat := ctx.command.count

/-- Whether a caret may rest just past the last character of a line. -/
def allowEnd (ctx : MotionContext) : Bool :=
  ctx.operatorPending ||
    match ctx.mode with
    | .insert | .replace | .select _ => true
    | _ => false

def line (ctx : MotionContext) : Nat := ctx.text.lineOf ctx.offset

/-- A destination other than where the caret is. -/
def moved (ctx : MotionContext) (destination : Nat) : Option Nat :=
  if destination = ctx.offset then none else some destination

end MotionContext

abbrev Motion := MotionContext → Option Nat

namespace Motion

def left : Motion := fun ctx ↦ ctx.moved (ctx.text.left ctx.offset ctx.count)

def right : Motion := fun ctx ↦ ctx.moved (ctx.text.right ctx.offset ctx.count ctx.allowEnd)

def down : Motion := fun ctx ↦ ctx.text.vertical ctx.offset ctx.count ctx.goal ctx.allowEnd

def up : Motion := fun ctx ↦ ctx.text.vertical ctx.offset (-ctx.count) ctx.goal ctx.allowEnd

def lineStart : Motion := fun ctx ↦ some (ctx.text.startOfLine ctx.offset)

def firstNonBlank : Motion := fun ctx ↦ some (ctx.text.indentOfLine ctx.offset)

def lineEnd : Motion := fun ctx ↦ some (ctx.text.endOfLine ctx.offset ctx.count ctx.allowEnd)

/-- The first character other than blank on a line that exists. -/
def indentOf? (t : Text) (line : Nat) : Option Nat :=
  if line < t.lineCount then some (t.firstNonBlank line) else none

def currentLine : Motion := fun ctx ↦ indentOf? ctx.text (ctx.line + (ctx.count - 1))

def nextLineStart : Motion := fun ctx ↦ indentOf? ctx.text (ctx.line + ctx.count)

def previousLineStart : Motion := fun ctx ↦
  if ctx.count ≤ ctx.line then some (ctx.text.firstNonBlank (ctx.line - ctx.count)) else none

/-- An operator may take the last word up to the end of the document; a caret stays on its line. -/
def wordForward (big : Bool) : Motion := fun ctx ↦
  if ctx.text.isEmpty then none
  else
    let destination := ctx.text.wordForward ctx.offset ctx.count big
    ctx.moved <|
      if ctx.operatorPending then destination else ctx.text.normalize destination ctx.allowEnd

def wordBackward (big : Bool) : Motion := fun ctx ↦
  ctx.moved (ctx.text.wordBackward ctx.offset ctx.count big)

def wordEnd (big : Bool) : Motion := fun ctx ↦
  ctx.moved (ctx.text.wordEnd ctx.offset ctx.count big false)

def wordEndBackward (big : Bool) : Motion := fun ctx ↦
  ctx.moved (ctx.text.wordEndBackward ctx.offset ctx.count big)

/-- The line that a typed count names, or else the one given. -/
def gotoLine (ctx : MotionContext) (line : Nat) : Nat :=
  ctx.text.indentOfLineNumber ((ctx.command.rawCount.map (· - 1)).getD line)

def gotoFirstLine : Motion := fun ctx ↦ some (gotoLine ctx 0)

def gotoLastLine : Motion := fun ctx ↦ some (gotoLine ctx ctx.text.lastLine)

def find (direction : Text.Direction) (till : Bool) : Motion := fun ctx ↦
  ctx.command.char.bind fun target ↦
    ctx.text.findChar? ctx.offset target ctx.count direction till

end Motion

end ModalEdit
