import ModalEdit.Edit.ModeChange
import ModalEdit.Edit.Typing

/-!
The built-in actions.
-/

set_option autoImplicit false

namespace ModalEdit.Builtin

def exclusive : CommandFlags := { exclusive := true, characterwise := true }

def inclusive : CommandFlags := { inclusive := true, characterwise := true }

def characterwise : CommandFlags := { characterwise := true }

def linewise : CommandFlags := { linewise := true }

def motion (id : ActionId) (f : Motion) (flags : CommandFlags) : ActionSpec :=
  { id, handler := .motion f, flags }

def textObject (id : ActionId) (f : TextObject) : ActionSpec :=
  { id, handler := .textObject f, flags := characterwise }

def operator (id : ActionId) (f : Operator) (flags : CommandFlags) : ActionSpec :=
  { id, handler := .operator f, flags }

/-- An action that needs nothing but the state. -/
def change (id : ActionId) (f : EditState → EditState) : ActionSpec :=
  { id, handler := .other fun _ _ s ↦ f s }

/-- An action whose name says which kind of selection it is for. -/
def selecting (id : ActionId) (f : EditState → SelectionKind → EditState) : ActionSpec :=
  { id, handler := .other fun _ command s ↦ f s (EditState.selectionKindOf command.action) }

def special (id : ActionId) : ActionSpec :=
  { id, handler := .other fun around command s ↦ s.specialKey around command }

def motions : List ActionSpec := [
  motion ActionId.left Motion.left exclusive,
  motion ActionId.right Motion.right exclusive,
  motion ActionId.up Motion.up { linewise with vertical := true },
  motion ActionId.down Motion.down { linewise with vertical := true },
  motion ActionId.lineStart Motion.lineStart exclusive,
  motion ActionId.firstNonBlank Motion.firstNonBlank exclusive,
  motion ActionId.lineEnd Motion.lineEnd { inclusive with stickyEol := true },
  motion ActionId.currentLine Motion.currentLine linewise,
  motion ActionId.nextLineStart Motion.nextLineStart linewise,
  motion ActionId.previousLineStart Motion.previousLineStart linewise,
  motion ActionId.wordForward (Motion.wordForward false) exclusive,
  motion ActionId.bigWordForward (Motion.wordForward true) exclusive,
  motion ActionId.wordBackward (Motion.wordBackward false) exclusive,
  motion ActionId.bigWordBackward (Motion.wordBackward true) exclusive,
  motion ActionId.wordEnd (Motion.wordEnd false) inclusive,
  motion ActionId.bigWordEnd (Motion.wordEnd true) inclusive,
  motion ActionId.wordEndBackward (Motion.wordEndBackward false) inclusive,
  motion ActionId.bigWordEndBackward (Motion.wordEndBackward true) inclusive,
  motion ActionId.gotoFirstLine Motion.gotoFirstLine linewise,
  motion ActionId.gotoLastLine Motion.gotoLastLine linewise,
  motion ActionId.findForward (Motion.find .forward false) { inclusive with expectsChar := true },
  motion ActionId.findBackward (Motion.find .backward false) { exclusive with expectsChar := true },
  motion ActionId.tillForward (Motion.find .forward true) { inclusive with expectsChar := true },
  motion ActionId.tillBackward (Motion.find .backward true) { exclusive with expectsChar := true }]

def textObjects : List ActionSpec := [
  textObject ActionId.innerWord (TextObject.word false false),
  textObject ActionId.aroundWord (TextObject.word false true),
  textObject ActionId.innerBigWord (TextObject.word true false),
  textObject ActionId.aroundBigWord (TextObject.word true true)]

def operators : List ActionSpec := [
  operator ActionId.delete Operator.delete {},
  operator ActionId.change Operator.change {},
  operator ActionId.yank Operator.yank {},
  operator ActionId.lowercase Operator.lowercase {},
  operator ActionId.uppercase Operator.uppercase {},
  operator ActionId.toggleCase Operator.toggleCase {},
  operator ActionId.deleteLines Operator.delete linewise,
  operator ActionId.changeLines Operator.change linewise,
  operator ActionId.changeLinesEnd Operator.changeLinesEnd linewise,
  operator ActionId.yankLines Operator.yank linewise]

def modeChanges : List ActionSpec := [
  change ActionId.insert (·.enterInsert .insert),
  change ActionId.append EditState.append,
  change ActionId.insertLineStart EditState.insertAtIndent,
  change ActionId.appendLineEnd EditState.appendAtLineEnd,
  change ActionId.openBelow (·.openLine true),
  change ActionId.openAbove (·.openLine false),
  change ActionId.replace (·.enterInsert .replace),
  selecting ActionId.visualChar EditState.toggleVisual,
  selecting ActionId.visualLine EditState.toggleVisual,
  selecting ActionId.visualBlock EditState.toggleVisual,
  selecting ActionId.selectChar EditState.startSelect,
  selecting ActionId.selectLine EditState.startSelect,
  selecting ActionId.selectBlock EditState.startSelect,
  change ActionId.toggleVisualSelect EditState.toggleVisualSelect,
  change ActionId.commandLine EditState.openCommandLine,
  change ActionId.escape EditState.escape]

def typing : List ActionSpec := [
  change ActionId.insertEscape EditState.leaveInsert,
  change ActionId.insertBackspace EditState.backspace,
  change ActionId.insertNewline EditState.typeNewline,
  change ActionId.insertTab EditState.typeTab,
  change ActionId.commandLineCancel EditState.closeCommandLine,
  change ActionId.commandLineExecute EditState.closeCommandLine,
  change ActionId.commandLineBackspace EditState.commandLineBackspace]

def specialKeys : List ActionSpec := [
  special ActionId.keyLeft,
  special ActionId.keyRight,
  special ActionId.keyUp,
  special ActionId.keyDown,
  special ActionId.keyHome,
  special ActionId.keyEnd,
  special ActionId.keyShiftLeft,
  special ActionId.keyShiftRight,
  special ActionId.keyShiftUp,
  special ActionId.keyShiftDown,
  special ActionId.keyShiftHome,
  special ActionId.keyShiftEnd]

def actions : List ActionSpec :=
  motions ++ textObjects ++ operators ++ modeChanges ++ typing ++ specialKeys

def registry : Registry := .ofList actions

end ModalEdit.Builtin
