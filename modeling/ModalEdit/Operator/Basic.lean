import ModalEdit.Editor.Basic
import ModalEdit.Span.Basic
import ModalEdit.Text.Step
import ModalEdit.Unicode.CaseMapping
import ModalEdit.Unicode.LetterCase

/-!
The operators: what is done to one span, where its caret goes, and the mode that follows. Deleted and
yanked lines always end in a line feed in the register, and the pieces of a block are joined by line
feeds.
-/

set_option autoImplicit false

namespace ModalEdit

structure OperatorArgs where
  caret : CaretId
  range : TextRange
  register : Option Char := none
  count : Nat := 1
  deriving DecidableEq, Repr

structure OperatorEffect where
  caretOffset : Nat
  nextMode : Mode
  deriving DecidableEq, Repr

abbrev Operator := Editor → OperatorArgs → OperatorEffect × Editor

namespace Operator

def withLineFeed (s : Text) : Text := if s.getLast? = some '\n' then s else s ++ ['\n']

/-- Takes out the segments, the last first so that the offsets of the others stay; the pieces come in
the order of the segments. -/
def eraseSegments (e : Editor) : List (Nat × Nat) → List Text × Editor
  | [] => ([], e)
  | (start, stop) :: rest =>
    let (pieces, e) := eraseSegments e rest
    let (piece, e) := e.eraseRange start stop
    (piece :: pieces, e)

def joinLines (pieces : List Text) : Text := ['\n'].intercalate pieces

def topLeft (segments : List (Nat × Nat)) (r : TextRange) : Nat := (segments.head?.map (·.1)).getD r.start

def eraseBlock (e : Editor) (segments : List (Nat × Nat)) : Text × Editor :=
  let (pieces, e) := eraseSegments e segments
  (joinLines pieces, e)

/-- Lines at the end of a document without a last line feed take the one before them along, so that no
empty line remains; in the register it goes to their end. -/
def delete : Operator := fun e args ↦
  let r := args.range
  match r.kind with
  | .characterwise =>
    let (removed, e) := e.eraseRange r.start r.stop
    let e := e.recordDelete args.register ⟨removed, .characterwise⟩
    (⟨e.text.normalize r.start false, .normal⟩, e)
  | .linewise =>
    let takesBreakBefore :=
      r.stop == e.text.length && 0 < r.start && e.text.charAt (r.stop - 1) != some '\n'
    let start := if takesBreakBefore then r.start - 1 else r.start
    let (removed, e) := e.eraseRange start r.stop
    let lines := if takesBreakBefore then removed.drop 1 else removed
    let e := e.recordDelete args.register ⟨withLineFeed lines, .linewise⟩
    (⟨e.text.indentOfLine start, .normal⟩, e)
  | .blockwise =>
    let segments := Span.blockSegments e.text r false
    let (removed, e) := eraseBlock e segments
    let e := e.recordDelete args.register ⟨removed, .blockwise⟩
    (⟨e.text.normalize (topLeft segments r) false, .normal⟩, e)

/-- Changed lines keep the line feed of the last one. -/
def changeWith (blockToLineEnds : Bool) : Operator := fun e args ↦
  let r := args.range
  let (removed, caretOffset, e) : Text × Nat × Editor :=
    match r.kind with
    | .characterwise =>
      let (removed, e) := e.eraseRange r.start r.stop
      (removed, r.start, e)
    | .linewise =>
      let keepsBreak := r.start < r.stop && e.text.charAt (r.stop - 1) == some '\n'
      let (removed, e) := e.eraseRange r.start (if keepsBreak then r.stop - 1 else r.stop)
      (withLineFeed removed, r.start, e)
    | .blockwise =>
      let segments := Span.blockSegments e.text r blockToLineEnds
      let (removed, e) := eraseBlock e segments
      (removed, topLeft segments r, e)
  let e := e.recordDelete args.register ⟨removed, r.kind⟩
  (⟨e.text.normalize caretOffset true, .insert⟩, e)

def change : Operator := changeWith false

/-- A block is changed up to the ends of its lines. -/
def changeLinesEnd : Operator := changeWith true

/-- Yanked lines leave the caret where it is if that is on the first of them. -/
def yank : Operator := fun e args ↦
  let r := args.range
  let (content, caretOffset) : Text × Nat :=
    match r.kind with
    | .characterwise => (e.text.slice r.start r.stop, r.start)
    | .linewise =>
      let onFirst := (e.caretOffset? args.caret).filter fun c ↦ e.text.lineOf c == e.text.lineOf r.start
      (withLineFeed (e.text.slice r.start r.stop), onFirst.getD r.start)
    | .blockwise =>
      let segments := Span.blockSegments e.text r false
      (joinLines (segments.map fun (start, stop) ↦ e.text.slice start stop), topLeft segments r)
  (⟨e.text.normalize caretOffset false, .normal⟩, e.recordYank args.register ⟨content, r.kind⟩)

/-! ### Case -/

/-- Maps each character of a span. Text that stays the same is left alone, marks and all. -/
def mapChars (f : Char → List Char) (e : Editor) (start stop : Nat) : Editor :=
  let old := e.text.slice start stop
  let new := old.flatMap f
  if new = old then e else (e.eraseRange start stop).2.insertText start new

def mapCase (f : Char → List Char) : Operator := fun e args ↦
  let r := args.range
  let (caretOffset, e) : Nat × Editor :=
    match r.kind with
    | .blockwise =>
      let segments := Span.blockSegments e.text r false
      (topLeft segments r,
        segments.reverse.foldl (fun e (start, stop) ↦ mapChars f e start stop) e)
    | _ => (r.start, mapChars f e r.start r.stop)
  (⟨e.text.normalize caretOffset false, .normal⟩, e)

/-- Small letters for capitals and capitals for small letters. -/
def swapCase (c : Char) : List Char :=
  if Unicode.isUppercase c then Unicode.toLower c
  else if Unicode.isLowercase c then Unicode.toUpper c
  else [c]

def lowercase : Operator := mapCase Unicode.toLower

def uppercase : Operator := mapCase Unicode.toUpper

def toggleCase : Operator := mapCase swapCase

end Operator

end ModalEdit
