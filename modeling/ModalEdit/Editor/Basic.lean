import ModalEdit.Buffer.Basic
import ModalEdit.Editor.Event
import ModalEdit.Register

/-!
The editor that commands act on: a buffer with carets and selections, registers, a bell, and a listener
that hears of every move. The positions of carets and the ends of selections are marks, so an edit for
one caret carries all the others along. At least one caret remains.
-/

set_option autoImplicit false

namespace ModalEdit

/-- The mark of a caret and the two of its selection. -/
structure CaretMarks where
  head : Mark
  selection : Option (Mark × Mark) := none
  deriving DecidableEq, Repr

structure Editor where
  buffer : Buffer
  /-- In the order of creation. -/
  carets : List (CaretId × CaretMarks) := []
  nextCaret : Nat := 0
  registers : Registers := {}
  listener : Option Listener := none
  guard : SuppressionGuard := {}
  bells : Nat := 0
  deriving DecidableEq, Repr

namespace Editor

def text (e : Editor) : Text := e.buffer.text

def emit (e : Editor) (event : EditorEvent) : Editor :=
  { e with listener := e.listener.map (·.notify e.guard event) }

def attachListener (e : Editor) : Editor := { e with listener := some {} }

def suppressedEvents (e : Editor) : Nat := (e.listener.map (·.suppressed)).getD 0

def takeEvents (e : Editor) : List EditorEvent × Editor :=
  match e.listener with
  | some l => (l.drain.1, { e with listener := some l.drain.2 })
  | none => ([], e)

def bell (e : Editor) : Editor := { e with bells := e.bells + 1 }

/-! ### Text and marks -/

def createMark (e : Editor) (offset : Nat) : Mark × Editor :=
  let (mark, buffer) := e.buffer.createMark offset
  (mark, { e with buffer })

def markOffset? (e : Editor) (mark : Mark) : Option Nat := e.buffer.markOffset? mark

def releaseMark (e : Editor) (mark : Mark) : Editor := { e with buffer := e.buffer.releaseMark mark }

/-- The span taken out, and the editor without it. -/
def eraseRange (e : Editor) (a b : Nat) : Text × Editor :=
  let (removed, buffer) := e.buffer.erase a b
  (removed, { e with buffer })

def insertText (e : Editor) (offset : Nat) (s : Text) : Editor :=
  { e with buffer := e.buffer.insert offset s }

def recordYank (e : Editor) (target : Option Char) (content : RegisterContent) : Editor :=
  { e with registers := e.registers.recordYank target content }

def recordDelete (e : Editor) (target : Option Char) (content : RegisterContent) : Editor :=
  { e with registers := e.registers.recordDelete target content }

/-! ### Carets and selections -/

def caretIds (e : Editor) : List CaretId := e.carets.map (·.1)

/-- The caret that gestures are for if they name none. -/
def primaryCaret? (e : Editor) : Option CaretId := e.caretIds.head?

def caretOffset? (e : Editor) (caret : CaretId) : Option Nat :=
  (e.carets.lookup caret).bind fun marks ↦ e.markOffset? marks.head

def selection? (e : Editor) (caret : CaretId) : Option (Nat × Nat) := do
  let marks ← e.carets.lookup caret
  let (first, last) ← marks.selection
  return (← e.markOffset? first, ← e.markOffset? last)

def spawnCaret (e : Editor) (offset : Nat) : CaretId × Editor :=
  let (head, e) := e.createMark offset
  (⟨e.nextCaret⟩,
    { e with carets := e.carets ++ [(⟨e.nextCaret⟩, { head })], nextCaret := e.nextCaret + 1 })

def setSelectionMarks (e : Editor) (caret : CaretId) (selection : Option (Mark × Mark)) : Editor :=
  { e with
    carets := e.carets.map fun (id, marks) ↦
      (id, if id = caret then { marks with selection } else marks) }

/-- Puts the selection of a caret between two offsets in either order. -/
def storeSelection (e : Editor) (caret : CaretId) (a b : Nat) : Editor :=
  match e.carets.lookup caret with
  | none => e
  | some { selection := some (first, last), .. } =>
    { e with buffer := (e.buffer.setMark first (min a b)).setMark last (max a b) }
  | some { selection := none, .. } =>
    let (first, e) := e.createMark (min a b)
    let (last, e) := e.createMark (max a b)
    e.setSelectionMarks caret (some (first, last))

/-- Drops the selection of a caret; whether there was one. -/
def clearSelection (e : Editor) (caret : CaretId) : Bool × Editor :=
  match (e.carets.lookup caret).bind (·.selection) with
  | none => (false, e)
  | some (first, last) => (true, ((e.setSelectionMarks caret none).releaseMark first).releaseMark last)

/-- Puts a caret at an offset; where it then is, if it exists. -/
def setHead (e : Editor) (caret : CaretId) (offset : Nat) : Option Nat × Editor :=
  match e.carets.lookup caret with
  | none => (none, e)
  | some marks =>
    let e := { e with buffer := e.buffer.setMark marks.head offset }
    (e.markOffset? marks.head, e)

/-- Moves a caret for a command; its selection stays. -/
def moveCaret (e : Editor) (caret : CaretId) (offset : Nat) : Editor :=
  match e.setHead caret offset with
  | (none, e) => e
  | (some offset, e) => e.emit (.caretMoved caret offset)

def setSelection (e : Editor) (caret : CaretId) (a b : Nat) : Editor :=
  let e := e.storeSelection caret a b
  match e.selection? caret with
  | some (start, stop) => e.emit (.selectionChanged caret start stop .other)
  | none => e

def removeSelection (e : Editor) (caret : CaretId) : Editor :=
  match e.clearSelection caret with
  | (false, e) => e
  | (true, e) =>
    let offset := (e.caretOffset? caret).getD 0
    e.emit (.selectionChanged caret offset offset .other)

/-! ### Gestures of the user -/

/-- Drops the selection where a gesture puts the caret, and reports it gone. -/
def collapseSelection (e : Editor) (caret : CaretId) (offset : Nat) (source : EventSource) : Editor :=
  match e.clearSelection caret with
  | (false, e) => e
  | (true, e) => e.emit (.selectionChanged caret offset offset source)

def userMoveCaret (e : Editor) (caret : CaretId) (offset : Nat) : Editor :=
  match e.setHead caret offset with
  | (none, e) => e
  | (some offset, e) =>
    (e.collapseSelection caret offset .keyboard).emit (.caretMoved caret offset)

/-- Selects between two offsets in either order and leaves the caret at the second. -/
def userSelect (e : Editor) (caret : CaretId) (anchor head : Nat) (source : EventSource) : Editor :=
  match e.setHead caret head with
  | (none, e) => e
  | (some _, e) =>
    (e.storeSelection caret anchor head).emit
      (.selectionChanged caret (min anchor head) (max anchor head) source)

def userClick (e : Editor) (caret : CaretId) (offset clicks : Nat) : Editor :=
  match e.setHead caret offset with
  | (none, e) => e
  | (some offset, e) =>
    (e.collapseSelection caret offset .mouse).emit (.mouseClicked caret offset clicks)

def userDragStart (e : Editor) (caret : CaretId) : Editor := e.emit (.dragStarted caret)

def userDragTo (e : Editor) (caret : CaretId) (anchor head : Nat) : Editor :=
  e.userSelect caret anchor head .mouse

def userRelease (e : Editor) (caret : CaretId) : Editor := e.emit (.mouseReleased caret)

def addCaret (e : Editor) (offset : Nat) : CaretId × Editor :=
  let (caret, e) := e.spawnCaret offset
  (caret, e.emit (.caretAdded caret ((e.caretOffset? caret).getD offset)))

/-- Whether the caret could be removed: it has to be there, and not to be the only one. -/
def removeCaret (e : Editor) (caret : CaretId) : Bool × Editor :=
  match e.carets.lookup caret with
  | none => (false, e)
  | some marks =>
    if e.carets.length ≤ 1 then (false, e)
    else
      let (_, e) := e.clearSelection caret
      let e := { e with carets := e.carets.filter (·.1 ≠ caret) }
      (true, (e.releaseMark marks.head).emit (.caretRemoved caret))

/-- A document with one caret at its start. -/
def ofText (t : Text) : Editor := (spawnCaret { buffer := { text := t } } 0).2

end Editor

end ModalEdit
