import ModalEdit.Toml.Scalar

/-!
Configuration files as text: lines of headings between brackets and of keys with their values, with blanks
and comments around them. Each reader gives what it reads and leaves the rest.
-/

set_option autoImplicit false

namespace ModalEdit.Toml

def skipBlanks (s : List Char) : List Char := s.dropWhile isBlank

/-- Past blanks, line breaks and comments. -/
def skipLines? (inComment : Bool) : List Char → Option (List Char)
  | [] => some []
  | c :: rest =>
    if startsBreak (c :: rest) then skipLines? false rest
    else if inComment then if isPlain c then skipLines? true rest else none
    else if c = '#' then skipLines? true rest
    else if isBlank c then skipLines? false rest
    else some (c :: rest)

/-- What stands on the next line, where only blanks and a comment are left of this one. -/
def nextLine? (s : List Char) : Option (List Char) :=
  let rest :=
    match skipBlanks s with
    | '#' :: comment => comment.dropWhile isPlain
    | rest => rest
  if rest.isEmpty then some [] else afterBreak? rest

/-- How deep values may lie within others, and how many keys may stand with points between them. -/
def maxDepth : Nat := 80

/-! ### Keys -/

def isKeyChar (c : Char) : Bool := c.isAlphanum || c == '_' || c == '-'

def simpleKey? (s : List Char) : Option (Key × List Char) :=
  match Quoted.onLine? s with
  | some read => some read
  | none =>
    let key := s.takeWhile isKeyChar
    if key.isEmpty then none else some (key, s.drop key.length)

def keyPathFrom : Nat → List Char → Option (List Key × List Char)
  | 0, _ => none
  | fuel + 1, s => do
    let (key, s) ← simpleKey? (skipBlanks s)
    match skipBlanks s with
    | '.' :: rest =>
      let (path, s) ← keyPathFrom fuel rest
      return (key :: path, s)
    | s => return ([key], s)

/-- Keys with points between them, and the blanks around them. -/
def keyPath? (s : List Char) : Option (List Key × List Char) :=
  (keyPathFrom (s.length + 1) s).filter fun (path, _) ↦ path.length ≤ maxDepth

/-! ### Values -/

def isWordChar (c : Char) : Bool := isKeyChar c || c == '+' || c == '.' || c == ':'

/-- A word; a date takes the time along that follows it after a space. -/
def word (s : List Char) : List Char × List Char :=
  let first := s.takeWhile isWordChar
  let rest := s.drop first.length
  match rest with
  | ' ' :: c :: more =>
    if (Scalar.afterDate? first matches some []) && c.isDigit then
      let time := (c :: more).takeWhile isWordChar
      (first ++ ' ' :: time, (c :: more).drop time.length)
    else (first, rest)
  | _ => (first, rest)

mutual

def valueFrom (depth : Nat) : Nat → List Char → Option (Value × List Char)
  | 0, _ => none
  | fuel + 1, s =>
    match s with
    | '[' :: rest =>
      if depth = 0 then none
      else (itemsFrom (depth - 1) fuel rest).map fun (items, s) ↦ (.array items, s)
    | '{' :: rest =>
      if depth = 0 then none
      else (entriesFrom (depth - 1) fuel [] rest).map fun (t, s) ↦ (.table .closed t, s)
    | _ =>
      match Quoted.read? s with
      | some (text, rest) => some (.string text, rest)
      | none => (Scalar.read? (word s).1).map (·, (word s).2)

/-- Values with commas between them, up to the closing bracket. -/
def itemsFrom (depth : Nat) : Nat → List Char → Option (List Value × List Char)
  | 0, _ => none
  | fuel + 1, s => do
    match ← skipLines? false s with
    | ']' :: rest => return ([], rest)
    | s =>
      let (item, s) ← valueFrom depth fuel s
      match ← skipLines? false s with
      | ']' :: rest => return ([item], rest)
      | ',' :: rest =>
        let (items, s) ← itemsFrom depth fuel rest
        return (item :: items, s)
      | _ => none

/-- Keys with their values and commas between them, up to the closing brace. Lines may end anywhere but
among the points of a key. -/
def entriesFrom (depth : Nat) : Nat → Table → List Char → Option (Table × List Char)
  | 0, _, _ => none
  | fuel + 1, t, s => do
    match ← skipLines? false s with
    | '}' :: rest => return (t, rest)
    | s =>
      let (path, s) ← keyPath? s
      let s ← Scalar.expect? '=' (← skipLines? false s)
      let (v, s) ← valueFrom depth fuel (← skipLines? false s)
      let t ← t.assign v path
      match ← skipLines? false s with
      | '}' :: rest => return (t, rest)
      | ',' :: rest => entriesFrom depth fuel t rest
      | _ => none

end

/-- A value. No step is taken more than twice for a character. -/
def value? (s : List Char) : Option (Value × List Char) := valueFrom maxDepth (2 * s.length + 2) s

/-! ### Lines -/

/-- Reads a line into the table of the whole file, with the path of the heading it stands under. -/
def line? (path : List Key) (t : Table) (s : List Char) : Option ((List Key × Table) × List Char) :=
  match s with
  | '[' :: '[' :: rest => do
    let (path, s) ← keyPath? rest
    let s ← Scalar.expect? ']' (← Scalar.expect? ']' s)
    let key ← path.getLast?
    return ((path, ← t.within path.dropLast (Table.addDoubleHeading key)), s)
  | '[' :: rest => do
    let (path, s) ← keyPath? rest
    let s ← Scalar.expect? ']' s
    let key ← path.getLast?
    return ((path, ← t.within path.dropLast (Table.addHeading key)), s)
  | _ => do
    let (keys, s) ← keyPath? s
    let s ← Scalar.expect? '=' s
    let (v, s) ← value? (skipBlanks s)
    return ((path, ← t.within path (Table.assign v keys)), s)

def linesFrom : Nat → List Key → Table → List Char → Option Table
  | 0, _, _, _ => none
  | fuel + 1, path, t, s => do
    match ← skipLines? false s with
    | [] => return t
    | s =>
      let ((path, t), s) ← line? path t s
      linesFrom fuel path t (← nextLine? s)

def byteOrderMark : Char := Char.ofNat 0xfeff

def withoutMark : List Char → List Char
  | [] => []
  | c :: rest => if c = byteOrderMark then rest else c :: rest

/-- The table that a file describes; none if it is not well-formed. -/
def parse? (s : List Char) : Option Table :=
  let s := withoutMark s
  linesFrom (s.length + 1) [] [] s

end ModalEdit.Toml
