import ModalEdit.Action.Basic

/-!
Motions and text objects as commands of their own. A motion is made for each caret and counts as done if
any caret could make it. In the visual and select modes the caret is the moving end of the selection; a
text object puts the selection around itself, in the visual modes only.
-/

set_option autoImplicit false

namespace ModalEdit

/-- Whether a command did something. A cancelled one left text and registers as they were. -/
inductive Dispatch where
  | executed
  | cancelled
  deriving DecidableEq, Repr

namespace EditState

/-- The bell if nothing was done for any caret. -/
def finish : Bool × EditState → Dispatch × EditState
  | (true, s) => (.executed, s)
  | (false, s) => (.cancelled, s.bell)

/-- The column that a motion starts from: the one aimed at before, for vertical motions. -/
def goalFor (s : EditState) (call : ActionCall) (state : CaretState) : GoalColumn :=
  match state.goal with
  | some goal => if call.flags.vertical then goal else .cell (s.text.visualColumn state.offset)
  | none => .cell (s.text.visualColumn state.offset)

/-- The column to aim at after a motion. -/
def goalAfter (call : ActionCall) (goal : GoalColumn) : Option GoalColumn :=
  if call.flags.stickyEol then some .lineEnd
  else if call.flags.vertical then some goal
  else none

def motionContext (s : EditState) (call : ActionCall) (caret : CaretId) (state : CaretState) :
    MotionContext where
  text := s.text
  caret := caret
  offset := state.offset
  goal := s.goalFor call state
  command := call
  mode := s.mode
  operatorPending := false

def showSelection (s : EditState) (caret : CaretId) : EditState :=
  if s.mode.isVisual || s.mode.isSelect then s.updateSelection caret else s

/-- Moves one caret, if the motion does not fail for it. -/
def applyMotionTo (call : ActionCall) (f : Motion) (caret : CaretId) (done : Bool) (s : EditState) :
    Bool × EditState :=
  match s.carets.get? caret with
  | none => (done, s)
  | some state =>
    let ctx := s.motionContext call caret state
    match f ctx with
    | none => (done, s)
    | some destination =>
      let s := s.moveCaret caret (s.text.normalize destination ctx.allowEnd)
      let s := s.modifyCaret caret ({ · with goal := goalAfter call ctx.goal })
      (true, s.showSelection caret)

def applyMotion (s : EditState) (call : ActionCall) (f : Motion) : Dispatch × EditState :=
  finish (s.foldCarets false (applyMotionTo call f))

/-- Selects the text object of one caret. An inclusive one may be empty. -/
def selectTextObjectAt (call : ActionCall) (f : TextObject) (caret : CaretId) (done : Bool)
    (s : EditState) : Bool × EditState :=
  match s.carets.get? caret with
  | none => (done, s)
  | some state =>
    let goal := .cell (s.text.visualColumn state.offset)
    match (f { s.motionContext call caret state with goal }).filter
        fun r ↦ !r.isEmpty || call.flags.inclusive with
    | none => (done, s)
    | some r =>
      let head := if call.flags.inclusive then r.stop else r.stop - 1
      let s := s.modifyCaret caret ({ · with selectionStart := some r.start, goal := none })
      (true, (s.moveCaret caret (max head r.start)).updateSelection caret)

def selectTextObject (s : EditState) (call : ActionCall) (f : TextObject) : Dispatch × EditState :=
  if s.mode.isVisual then finish (s.foldCarets false (selectTextObjectAt call f))
  else (.cancelled, s.bell)

end EditState

end ModalEdit
