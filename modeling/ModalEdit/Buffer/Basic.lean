import ModalEdit.Buffer.Mark
import ModalEdit.Text.Basic

/-!
A document with its marks; an edit changes the text and carries the marks along.
-/

set_option autoImplicit false

namespace ModalEdit

structure Buffer where
  text : Text
  marks : MarkSet := {}
  deriving DecidableEq, Repr

namespace Buffer

def insert (b : Buffer) (offset : Nat) (s : Text) : Buffer :=
  { text := b.text.insert offset s
    marks := b.marks.afterInsert (min offset b.text.length) s.length }

/-- The span taken out, and the buffer without it. -/
def erase (b : Buffer) (x y : Nat) : Text × Buffer :=
  (b.text.slice x y,
    { text := b.text.erase x y
      marks := b.marks.afterErase (min (min x y) b.text.length) (min (max x y) b.text.length) })

def createMark (b : Buffer) (offset : Nat) : Mark × Buffer :=
  let (mark, marks) := b.marks.create (min offset b.text.length)
  (mark, { b with marks })

def markOffset? (b : Buffer) (mark : Mark) : Option Nat := b.marks.get? mark

def setMark (b : Buffer) (mark : Mark) (offset : Nat) : Buffer :=
  { b with marks := b.marks.set mark (min offset b.text.length) }

def releaseMark (b : Buffer) (mark : Mark) : Buffer := { b with marks := b.marks.release mark }

end Buffer

end ModalEdit
