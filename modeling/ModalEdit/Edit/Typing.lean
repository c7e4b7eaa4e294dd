import ModalEdit.Edit.Movement

/-!
Typing: strokes that no binding takes, in the modes where they are text. Text goes in before each caret,
or over the characters at it in the replace mode; in the select modes it takes the place of the
selections.
-/

set_option autoImplicit false

namespace ModalEdit

/-- The text that strokes write; those that write none are passed over. -/
def Keys.typedText (keys : Keys) : Text :=
  keys.filterMap fun k ↦ k.typedChar?.or <|
    match k.code with
    | .tab => some '\t'
    | .enter => some '\n'
    | _ => none

namespace EditState

def insertAtCarets (s : EditState) (typed : Text) : EditState :=
  s.forCarets fun caret s ↦
    match s.caretOffset? caret with
    | none => s
    | some offset =>
      { s with editor := s.editor.insertText offset typed }.moveCaret caret (offset + typed.length)

/-- Puts a character over the one at a caret. A line feed is never overwritten, and does not overwrite.
-/
def overwriteAt (c : Char) (caret : CaretId) (s : EditState) : EditState :=
  match s.caretOffset? caret with
  | none => s
  | some offset =>
    let editor :=
      if c != '\n' && (s.text.charAt offset).any (· != '\n') then
        (s.editor.eraseRange offset (offset + 1)).2
      else s.editor
    { s with editor := editor.insertText offset [c] }.moveCaret caret (offset + 1)

def overwriteAtCarets (s : EditState) (typed : Text) : EditState :=
  typed.foldl (fun s c ↦ s.forCarets (overwriteAt c)) s

/-- Removes the selections and goes on in the insert mode. -/
def replaceSelections (s : EditState) : EditState :=
  let s := s.forCarets fun caret s ↦
    match s.editor.selection? caret with
    | none => s
    | some (start, stop) =>
      { s with editor := (s.editor.eraseRange start stop).2 }.moveCaret caret start
  s.clearSelections.enterInsert .insert

def typeKeys (s : EditState) (keys : Keys) : Dispatch × EditState :=
  let typed := keys.typedText
  if s.mode.isSelect && keys.any (fun k ↦ k.code == .backspace || k.code == .delete) then
    (.executed, s.replaceSelections)
  else if typed.isEmpty then (.cancelled, s.bell)
  else
    match s.mode with
    | .insert => (.executed, s.insertAtCarets typed)
    | .replace => (.executed, s.overwriteAtCarets typed)
    | .select _ => (.executed, s.replaceSelections.insertAtCarets typed)
    | .commandLine => (.executed, { s with cmdline := s.cmdline ++ typed })
    | _ => (.cancelled, s.bell)

/-! ### Keys with a binding -/

/-- In the replace mode only the carets go back. -/
def backspace (s : EditState) : EditState :=
  let erases := s.mode != .replace
  s.forCarets fun caret s ↦
    match s.caretOffset? caret with
    | none | some 0 => s
    | some (before + 1) =>
      let editor := if erases then (s.editor.eraseRange before (before + 1)).2 else s.editor
      { s with editor }.moveCaret caret before

def typeNewline (s : EditState) : EditState := s.insertAtCarets ['\n']

def typeTab (s : EditState) : EditState :=
  if s.mode = .replace then s.overwriteAtCarets ['\t'] else s.insertAtCarets ['\t']

/-! ### The command line -/

def openCommandLine (s : EditState) : EditState :=
  let s := if s.mode.isVisual then s.exitToNormal else s
  ({ s with cmdline := [] }.setMode .commandLine).2

/-- What was typed is not run here: it is dropped, as when it is given up. -/
def closeCommandLine (s : EditState) : EditState := ({ s with cmdline := [] }.setMode .normal).2

/-- Leaves the command line when there is nothing to erase. -/
def commandLineBackspace (s : EditState) : EditState :=
  if s.cmdline.isEmpty then (s.setMode .normal).2 else { s with cmdline := s.cmdline.dropLast }

end EditState

end ModalEdit
