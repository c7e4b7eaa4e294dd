import ModalEdit.Editor.Basic
import ModalEdit.Mode.Machine
import ModalEdit.Span.Basic

/-!
What a command may change: the editor, the mode, what is remembered of the carets, and the command line.
The caret table is brought in line with the editor whenever carets are gone through, and they are gone
through from the start of the document to its end.
-/

set_option autoImplicit false

namespace ModalEdit

structure EditState where
  editor : Editor
  modes : ModeMachine := {}
  carets : CaretTable := {}
  cmdline : Text := []
  deriving DecidableEq, Repr

namespace EditState

def mode (s : EditState) : Mode := s.modes.mode

def text (s : EditState) : Text := s.editor.text

def bell (s : EditState) : EditState := { s with editor := s.editor.bell }

/-! ### Modes -/

/-- Whether the machine allowed the change; if not, nothing happens. -/
def setMode (s : EditState) (target : Mode) : Bool × EditState :=
  match s.modes.transition target with
  | .ok modes => (true, { s with modes })
  | .error _ => (false, s)

/-- Goes by way of the normal mode where there is no direct way. -/
def enterMode (s : EditState) (target : Mode) : Bool × EditState :=
  if s.modes.canTransition target then s.setMode target
  else { s with modes := s.modes.resetToNormal }.setMode target

/-! ### Carets -/

def caretOffset? (s : EditState) (caret : CaretId) : Option Nat := s.editor.caretOffset? caret

def syncCarets (s : EditState) : EditState :=
  { s with
    carets := s.carets.sync <| s.editor.caretIds.filterMap fun caret ↦
      (s.caretOffset? caret).map (caret, ·) }

def modifyCaret (s : EditState) (caret : CaretId) (f : CaretState → CaretState) : EditState :=
  { s with carets := s.carets.modify caret f }

/-- Does something for each caret, in the order in which they stand before, and keeps a value along
the way. -/
def foldCarets {α : Type} (s : EditState) (a : α) (f : CaretId → α → EditState → α × EditState) :
    α × EditState :=
  let s := s.syncCarets
  s.carets.orderedByOffset.foldl (fun (a, s) caret ↦ f caret a s) (a, s)

def forCarets (s : EditState) (f : CaretId → EditState → EditState) : EditState :=
  let s := s.syncCarets
  s.carets.orderedByOffset.foldl (fun s caret ↦ f caret s) s

def moveCaret (s : EditState) (caret : CaretId) (offset : Nat) : EditState :=
  let s := { s with editor := s.editor.moveCaret caret offset }
  s.modifyCaret caret ({ · with offset := (s.caretOffset? caret).getD offset })

/-- Moves each caret that has another place to go. -/
def moveAll (s : EditState) (destination : Text → Nat → Nat) : EditState :=
  s.forCarets fun caret s ↦
    match s.caretOffset? caret with
    | none => s
    | some offset =>
      let target := destination s.text offset
      if target = offset then s else s.moveCaret caret target

/-- Where typing begins at each caret. -/
def markInsertStart (s : EditState) : EditState :=
  s.forCarets fun caret s ↦
    s.modifyCaret caret fun state ↦ { state with insertStart := some state.offset }

def enterInsert (s : EditState) (target : Mode) : EditState :=
  match s.enterMode target with
  | (true, s) => s.markInsertStart
  | (false, s) => s

/-! ### Selections -/

/-- Shows the selection of a caret in the editor. -/
def updateSelection (s : EditState) (caret : CaretId) : EditState :=
  match s.mode.selectionKind?, s.carets.get? caret with
  | some kind, some state =>
    let r := Span.selection s.text (state.selectionStart.getD state.offset) state.offset kind
      s.mode.isSelect false
    { s with editor := s.editor.setSelection caret r.start r.stop }
  | _, _ => s

def updateSelections (s : EditState) : EditState := s.forCarets fun caret s ↦ s.updateSelection caret

def clearSelections (s : EditState) : EditState :=
  { s with
    editor := s.editor.caretIds.foldl Editor.removeSelection s.editor
    carets := s.carets.clearSelections }

/-- Leaves any mode for the normal one: no selection stays, and no caret past the end of its line. -/
def exitToNormal (s : EditState) : EditState :=
  let s := s.clearSelections
  { s with modes := s.modes.resetToNormal }.moveAll fun t offset ↦ t.normalize offset false

end EditState

end ModalEdit
