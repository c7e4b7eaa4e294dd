import ModalEdit.Text.Basic

/-!
Lines. A line keeps the break that ends it; CR LF is one break. A break at the very end of the document
closes the last line and opens no further one, and the empty document has one empty line. Line numbers
and offsets out of range are read as the last line and the end of the document.
-/

set_option autoImplicit false

namespace ModalEdit.Text

/-- Line feed, vertical tab, form feed, carriage return, next line, line and paragraph separator. -/
def isLineBreak (c : Char) : Bool :=
  (0xA ≤ c.toNat && c.toNat ≤ 0xD) || c.toNat == 0x85 || c.toNat == 0x2028 || c.toNat == 0x2029

/-- The document cut after each of its breaks. -/
def splitLines : Text → List Text
  | [] => []
  | '\r' :: '\n' :: rest => ['\r', '\n'] :: splitLines rest
  | c :: rest =>
    if isLineBreak c then [c] :: splitLines rest
    else
      match splitLines rest with
      | [] => [[c]]
      | line :: others => (c :: line) :: others

def lines (t : Text) : List Text :=
  match t.splitLines with
  | [] => [[]]
  | line :: others => line :: others

def lineCount (t : Text) : Nat := t.lines.length

def lastLine (t : Text) : Nat := t.lineCount - 1

/-- The number of the line that an offset falls in, among the given lines; past them, the last. -/
def lineAmong : List Text → Nat → Nat
  | [], _ => 0
  | [_], _ => 0
  | line :: rest, offset => if offset < line.length then 0 else lineAmong rest (offset - line.length) + 1

def lineOf (t : Text) (offset : Nat) : Nat := lineAmong t.lines offset

/-- The offset at which a line begins. -/
def lineStart (t : Text) (line : Nat) : Nat :=
  (t.lines.take (min line t.lastLine)).flatten.length

/-- The line with its break. -/
def lineAt (t : Text) (line : Nat) : Text := (t.lines[min line t.lastLine]?).getD []

/-- The length of a line without the line feed that ends it; other breaks count as its content. -/
def contentLength (line : Text) : Nat :=
  if line.getLast? = some '\n' then line.length - 1 else line.length

/-- The offset just past the content of a line. -/
def lineEnd (t : Text) (line : Nat) : Nat := t.lineStart line + contentLength (t.lineAt line)

def lineText (t : Text) (line : Nat) : Text := t.slice (t.lineStart line) (t.lineEnd line)

/-- The offset after the spaces and tabs that a line begins with. -/
def firstNonBlank (t : Text) (line : Nat) : Nat :=
  t.lineStart line + ((t.lineText line).takeWhile (fun c ↦ c == ' ' || c == '\t')).length

/-- The last offset a caret may take on a line: on its last character, or just past it where
`allowEnd`; an empty line has only its start. -/
def lastCaretOffset (t : Text) (line : Nat) (allowEnd : Bool) : Nat :=
  if allowEnd then t.lineEnd line else max (t.lineStart line) (t.lineEnd line - 1)

/-- The offset drawn into the document and then onto its line. -/
def normalize (t : Text) (offset : Nat) (allowEnd : Bool) : Nat :=
  let line := t.lineOf offset
  max (t.lineStart line) (min offset (t.lastCaretOffset line allowEnd))

def isEmptyLineAt (t : Text) (offset : Nat) : Bool :=
  let line := t.lineOf offset
  t.lineStart line == t.lineEnd line

end ModalEdit.Text
