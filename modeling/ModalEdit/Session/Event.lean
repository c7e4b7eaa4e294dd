import ModalEdit.Session.Basic

/-!
What a session makes of the editor's reports. A selection that is made outside of the session puts it
into a visual or select mode, and one that goes away takes it out again; while the mouse drags nothing is
done about selections until it is released.
-/

set_option autoImplicit false

namespace ModalEdit

namespace EditState

/-- Whether a selection from this source starts a select mode, and not a visual one. -/
def startsSelect (options : Options) : EventSource → Bool
  | .mouse => options.hasSelectMode .mouse
  | .other => options.hasSelectMode .editor
  | .keyboard => false

/-- The fixed end of a selection and its caret. A visual selection includes the caret, which is on its
last character. -/
def selectionEnds (start stop head : Nat) (select : Bool) : Nat × Nat :=
  match select, head == start with
  | true, true => (stop, start)
  | true, false => (start, stop)
  | false, true => (stop - 1, start)
  | false, false => (start, stop - 1)

/-- Follows a selection that was made outside of the session, or that is gone. -/
def adoptSelection (s : EditState) (options : Options) (caret : CaretId) (source : EventSource) :
    EditState :=
  match (s.editor.selection? caret).filter fun (start, stop) ↦ start < stop with
  | none => if s.mode.isVisual || s.mode.isSelect then s.exitToNormal else s
  | some (start, stop) =>
    let select := startsSelect options source
    let target : Mode := if select then .select .character else .visual .character
    let (anchor, head) := selectionEnds start stop ((s.caretOffset? caret).getD stop) select
    let s := s.modifyCaret caret ({ · with selectionStart := some anchor })
    let (entered, s) := if s.mode = target then (true, s) else s.enterMode target
    if entered then (s.moveCaret caret head).updateSelection caret else s

/-- A click ends a selection, and draws the caret from the end of a line onto its last character unless
text is being typed. -/
def click (s : EditState) (caret : CaretId) (offset : Nat) : EditState :=
  let s := if s.mode.isVisual || s.mode.isSelect then s.exitToNormal else s
  if s.mode = .insert ∨ s.mode = .replace then s
  else
    let line := s.text.lineOf offset
    if offset = s.text.lineEnd line ∧ s.text.lineStart line < offset then s.moveCaret caret (offset - 1)
    else s

end EditState

namespace Session

def handleEvent (s : Session) (event : EditorEvent) : Session :=
  match event with
  | .caretAdded caret offset => { s with edit.carets := s.edit.carets.add caret offset }
  | .caretRemoved caret => { s with edit.carets := s.edit.carets.remove caret }
  | .caretMoved caret offset =>
    { s with edit := s.edit.modifyCaret caret ({ · with offset, goal := none }) }
  | .dragStarted _ => if s.dragging then s else { s with dragging := true, edit := s.edit.lock.2 }
  | .mouseReleased caret =>
    if s.dragging then
      let edit := s.edit.guardedChange fun edit ↦ edit.adoptSelection s.options caret .mouse
      { s with dragging := false, edit := edit.unlock {} }
    else s
  | .mouseClicked caret offset clicks =>
    if clicks = 1 then { s with edit := s.edit.guardedChange fun edit ↦ edit.click caret offset } else s
  | .selectionChanged caret _ _ source =>
    { s with edit := s.edit.guardedChange fun edit ↦ edit.adoptSelection s.options caret source }

/-- Handles what the editor has reported since the last time. -/
def pump (s : Session) : Session :=
  let (events, editor) := s.editor.takeEvents
  events.foldl handleEvent (s.withEditor editor)

/-- Takes one stroke; what it leads to is done when the outcome is there. -/
def handleKey (s : Session) (stroke : KeyStroke) : KeyOutcome × Session := s.pump.pressKey stroke

/-- Takes strokes one after the other; the outcome is that of the last. -/
def handleAll (s : Session) (keys : Keys) : KeyOutcome × Session :=
  keys.foldl (fun (_, s) stroke ↦ s.handleKey stroke) (.pending, s)

/-- Takes written keys. -/
def handleKeys (s : Session) (written : List Char) : Except KeyError (KeyOutcome × Session) :=
  s.handleAll <$> Keys.parse written

end Session

end ModalEdit
