import ModalEdit.Mode.Basic
import ModalEdit.Range
import ModalEdit.Text.Column
import ModalEdit.Unicode.WhiteSpace

/-!
From offsets to the span that is acted on: whole lines, an end that takes its character in, the
adjustment of an end that comes to rest at the start of a line, selections, and blocks of columns.
-/

set_option autoImplicit false

namespace ModalEdit.Span

/-- Past the line feed at an offset, if there is one. -/
def pastLineFeed (t : Text) (offset : Nat) : Nat :=
  if t.charAt offset = some '\n' then offset + 1 else offset

/-- The lines between two, with their line feeds. -/
def lines (t : Text) (a b : Nat) : TextRange :=
  .between (t.lineStart (min a b)) (pastLineFeed t (t.lineEnd (max a b))) .linewise

/-- The lines of two offsets and those between. -/
def linesOf (t : Text) (a b : Nat) : TextRange := lines t (t.lineOf a) (t.lineOf b)

/-- The end of a span that takes in the character at an offset, unless that is a line feed. -/
def inclusiveEnd (t : Text) (offset : Nat) : Nat :=
  match t.charAt offset with
  | none | some '\n' => offset
  | some _ => offset + 1

/-- The end of a word motion from `a` to `b` drawn back to the end of the line of its last word, where
only blanks with a line feed among them come after that word. -/
def trimWordMotion (t : Text) (a b : Nat) : Nat :=
  let blanks := (t.slice a b).reverse.takeWhile Unicode.isWhiteSpace
  if blanks.contains '\n' then max (t.lineEnd (t.lineOf (max a (b - blanks.length - 1)))) a else b

/-- A span without the character at its end. An end on the first character of a later line, blanks
apart, makes whole lines of it. An end at the start of a later line goes back to the line before; if
then only blanks come before the span on its first line, that too makes whole lines. -/
def exclusive (t : Text) (x y : Nat) : TextRange :=
  let a := min x y
  let b := max x y
  if a = b ∨ t.length ≤ b then .between a (min b t.length) .characterwise
  else
    let first := t.lineOf a
    let last := t.lineOf b
    if last = first then .between a b .characterwise
    else if b = t.firstNonBlank last then lines t first last
    else if b = t.lineStart last then
      if a ≤ t.firstNonBlank first then lines t first (last - 1)
      else .between a (max (t.lineEnd (last - 1)) a) .characterwise
    else .between a b .characterwise

/-- The span of a selection from its fixed end to its caret. The visual modes take in the character
under the caret, the select modes do not; `forceLines` makes whole lines of all but blocks. -/
def selection (t : Text) (anchor head : Nat) (kind : SelectionKind) (selectMode forceLines : Bool) :
    TextRange :=
  let a := min anchor head
  let b := max anchor head
  match kind with
  | .line => linesOf t a b
  | .character =>
    if forceLines then linesOf t a b
    else if selectMode then .between a (min b t.length) .characterwise
    else .between a (min (b + 1) t.length) .characterwise
  | .block => .between a (max (min (b + 1) t.length) a) .blockwise

/-- The parts of the lines of a block, from the top: the characters between the columns of its corners,
or up to the ends of the lines. -/
def blockSegments (t : Text) (r : TextRange) (toLineEnds : Bool) : List (Nat × Nat) :=
  let corner := max r.start (r.stop - 1)
  let lowest := min (t.visualColumn r.start) (t.visualColumn corner)
  let highest := max (t.visualColumn r.start) (t.visualColumn corner)
  let first := t.lineOf r.start
  (List.range' first (t.lineOf corner + 1 - first)).map fun line ↦
    let start := t.offsetAtColumn line lowest true
    if toLineEnds then (start, t.lineEnd line)
    else
      let last := t.offsetAtColumn line highest true
      (start, max start (if last < t.lineEnd line then last + 1 else last))

end ModalEdit.Span
