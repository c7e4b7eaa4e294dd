import ModalEdit.Action.Id
import ModalEdit.Edit.Movement
import ModalEdit.Text.Step

/-!
Ways into and out of the modes: where typing starts, selections that begin, change their kind and end,
and the arrow keys, which start, extend or stop selections as the options say.
-/

set_option autoImplicit false

namespace ModalEdit.EditState

/-! ### Typing -/

def append (s : EditState) : EditState := (s.moveAll Span.inclusiveEnd).enterInsert .insert

def insertAtIndent (s : EditState) : EditState := (s.moveAll Text.indentOfLine).enterInsert .insert

def appendAtLineEnd (s : EditState) : EditState :=
  (s.moveAll fun t offset ↦ t.lineEnd (t.lineOf offset)).enterInsert .insert

/-- A new line below or above the line of each caret. -/
def openLine (s : EditState) (below : Bool) : EditState :=
  let s := s.forCarets fun caret s ↦
    match s.caretOffset? caret with
    | none => s
    | some offset =>
      let line := s.text.lineOf offset
      let place := if below then s.text.lineEnd line else s.text.lineStart line
      { s with editor := s.editor.insertText place ['\n'] }.moveCaret caret
        (if below then place + 1 else place)
  s.enterInsert .insert

/-- Back to the normal mode, each caret one character to the left. -/
def leaveInsert (s : EditState) : EditState :=
  let s := s.moveAll fun t offset ↦ t.left offset 1
  (s.forCarets fun caret s ↦ s.modifyCaret caret ({ · with insertStart := none })).exitToNormal

/-! ### Selections -/

/-- The kind of selection that an action is for. -/
def selectionKindOf (id : ActionId) : SelectionKind :=
  if id = ActionId.visualLine ∨ id = ActionId.selectLine then .line
  else if id = ActionId.visualBlock ∨ id = ActionId.selectBlock then .block
  else .character

/-- Fixes one end of a selection at each caret and enters a mode. -/
def startSelection (s : EditState) (target : Mode) : EditState :=
  let s := s.forCarets fun caret s ↦
    s.modifyCaret caret fun state ↦ { state with selectionStart := some state.offset }
  match s.enterMode target with
  | (true, s) => s.updateSelections
  | (false, s) => { s with carets := s.carets.clearSelections }

/-- Enters a visual mode, changes over from another one, or leaves it. -/
def toggleVisual (s : EditState) (kind : SelectionKind) : EditState :=
  match s.mode with
  | .visual current =>
    if current = kind then s.exitToNormal else (s.setMode (.visual kind)).2.updateSelections
  | _ => s.startSelection (.visual kind)

/-- Selects what is under the caret. The select mode of characters leaves the caret behind the one it
selects. -/
def startSelect (s : EditState) (kind : SelectionKind) : EditState :=
  let s := s.startSelection (.select kind)
  if kind = .character ∧ s.mode.isSelect then
    s.forCarets fun caret s ↦
      match s.caretOffset? caret with
      | none => s
      | some offset => (s.moveCaret caret (Span.inclusiveEnd s.text offset)).updateSelection caret
  else s

/-- Where the caret goes so that the selected text stays when a visual mode, which includes the caret,
turns into a select mode, which does not, or the other way round. -/
def headAcross (t : Text) (state : CaretState) (toSelect : Bool) : Nat :=
  let anchor := state.selectionStart.getD state.offset
  if toSelect then
    if anchor ≤ state.offset then Span.inclusiveEnd t state.offset else state.offset
  else if anchor < state.offset then state.offset - 1
  else state.offset

def changeSelectionMode (s : EditState) (target : Mode) (toSelect : Bool) : EditState :=
  let s := s.forCarets fun caret s ↦
    match s.carets.get? caret with
    | none => s
    | some state =>
      let head := headAcross s.text state toSelect
      if head = state.offset then s else s.moveCaret caret head
  (s.setMode target).2.updateSelections

def toggleVisualSelect (s : EditState) : EditState :=
  match s.mode with
  | .visual kind => s.changeSelectionMode (.select kind) true
  | .select kind => s.changeSelectionMode (.visual kind) false
  | _ => s

/-! ### Escape -/

/-- With nothing left to leave, the bell. -/
def escape (s : EditState) : EditState := if s.mode = .normal then s.bell else s.exitToNormal

/-- Gives up what was typed of a command. Whatever the mode was, it is the normal mode after. -/
def cancel (s : EditState) : EditState :=
  match s.mode with
  | .normal => s
  | .insert | .replace => s.leaveInsert
  | .commandLine => { s with cmdline := [] }.exitToNormal
  | _ => s.exitToNormal

/-! ### Special keys -/

/-- The motion of a special key, and whether the key is shifted. -/
def specialKeys : List (ActionId × ActionId × Bool) :=
  [(ActionId.keyLeft, ActionId.left, false), (ActionId.keyRight, ActionId.right, false),
    (ActionId.keyUp, ActionId.up, false), (ActionId.keyDown, ActionId.down, false),
    (ActionId.keyHome, ActionId.lineStart, false), (ActionId.keyEnd, ActionId.lineEnd, false),
    (ActionId.keyShiftLeft, ActionId.left, true), (ActionId.keyShiftRight, ActionId.right, true),
    (ActionId.keyShiftUp, ActionId.up, true), (ActionId.keyShiftDown, ActionId.down, true),
    (ActionId.keyShiftHome, ActionId.lineStart, true), (ActionId.keyShiftEnd, ActionId.lineEnd, true)]

/-- A shifted key without a selection may start one, and a key without Shift may stop the one there is;
the options decide. -/
def adaptSelection (s : EditState) (options : Options) (shifted : Bool) : EditState :=
  let selecting := s.mode.isVisual || s.mode.isSelect
  if shifted then
    if !selecting && options.hasKeyModel .startSel then
      s.startSelection
        (if options.hasSelectMode .key then .select .character else .visual .character)
    else s
  else if selecting then
    if options.hasKeyModel .stopSel ||
        options.hasKeyModel (if s.mode.isVisual then .stopVisual else .stopSelect) then
      s.exitToNormal
    else s
  else s

def specialKey (s : EditState) (around : Surroundings) (command : Command) : EditState :=
  match specialKeys.lookup command.action with
  | none => s
  | some (id, shifted) =>
    match around.motion? id with
    | none => s
    | some (f, flags) =>
      let call : ActionCall := { kind := .motion, action := id, flags, rawCount := command.rawCount }
      ((s.adaptSelection around.options shifted).applyMotion call f).2

end ModalEdit.EditState
