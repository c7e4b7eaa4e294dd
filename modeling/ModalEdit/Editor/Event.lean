import ModalEdit.Caret
import ModalEdit.Suppression

/-!
What an editor reports: carets and selections that moved, the mouse, and carets that came and went. A
listener queues the reports until they are asked for. While the guard is locked it counts the moves of
carets and selections and drops them; what the mouse does and which carets there are always passes.
-/

set_option autoImplicit false

namespace ModalEdit

inductive EventSource where
  | mouse
  | keyboard
  | other
  deriving DecidableEq, Repr

inductive EditorEvent where
  | selectionChanged (caret : CaretId) (start stop : Nat) (source : EventSource)
  | caretMoved (caret : CaretId) (offset : Nat)
  | mouseClicked (caret : CaretId) (offset clicks : Nat)
  | dragStarted (caret : CaretId)
  | mouseReleased (caret : CaretId)
  | caretAdded (caret : CaretId) (offset : Nat)
  | caretRemoved (caret : CaretId)
  deriving DecidableEq, Repr

namespace EditorEvent

def isSuppressible : EditorEvent → Bool
  | selectionChanged .. | caretMoved .. => true
  | _ => false

def caret : EditorEvent → CaretId
  | selectionChanged caret .. | caretMoved caret _ | mouseClicked caret .. | dragStarted caret
  | mouseReleased caret | caretAdded caret _ | caretRemoved caret => caret

end EditorEvent

structure Listener where
  /-- Oldest first. -/
  queue : List EditorEvent := []
  suppressed : Nat := 0
  deriving DecidableEq, Repr

namespace Listener

def notify (l : Listener) (guard : SuppressionGuard) (event : EditorEvent) : Listener :=
  if event.isSuppressible && guard.isLocked then { l with suppressed := l.suppressed + 1 }
  else { l with queue := l.queue ++ [event] }

def drain (l : Listener) : List EditorEvent × Listener := (l.queue, { l with queue := [] })

end Listener

end ModalEdit
