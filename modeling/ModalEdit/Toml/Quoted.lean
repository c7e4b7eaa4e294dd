import ModalEdit.Toml.Line

/-!
Quoted text. Between quotes it is read with escapes, between apostrophes as it stands; tripled, either may
go over several lines, whose breaks it keeps as they are written. The readers begin behind the opening mark
and leave what follows the closing one.
-/

set_option autoImplicit false

namespace ModalEdit.Toml

def quote : Char := Char.ofNat 0x22

def apostrophe : Char := Char.ofNat 0x27

def hexDigit? (c : Char) : Option Nat :=
  if c.isDigit then some (c.toNat - '0'.toNat)
  else if 'a' ≤ c.toLower && c.toLower ≤ 'f' then some (c.toLower.toNat - 'a'.toNat + 10)
  else none

namespace Quoted

/-- Past the closing mark, if it comes next. Of tripled marks the last three close, and two more may stand
before them as text. -/
def close? (mark : Char) (tripled : Bool) (s : List Char) : Option (List Char × List Char) :=
  if tripled then
    let marks := (s.takeWhile (· == mark)).length
    if marks < 3 then none
    else
      let kept := min (marks - 3) 2
      some (List.replicate kept mark, s.drop (3 + kept))
  else some ([], s.drop 1)

def push (c : Char) (read : Option (List Char × List Char)) : Option (List Char × List Char) :=
  read.map fun (s, after) ↦ (c :: s, after)

/-- The character that a letter stands for behind a backslash. -/
def escaped? (c : Char) : Option Char :=
  if c = quote then some quote
  else
    match c with
    | '\\' => some '\\'
    | 'b' => some (Char.ofNat 0x08)
    | 't' => some '\t'
    | 'n' => some '\n'
    | 'f' => some (Char.ofNat 0x0c)
    | 'r' => some '\r'
    | 'e' => some (Char.ofNat 0x1b)
    | _ => none

/-- The number of digits that give a character by its code behind a backslash and a letter. -/
def codeLength? : Char → Option Nat
  | 'x' => some 2
  | 'u' => some 4
  | 'U' => some 8
  | _ => none

/-- Where the reader stands between two characters. -/
inductive Reading where
  | text
  /-- Behind a backslash. -/
  | escape
  /-- Within a code, with so many digits to come. -/
  | code (left value : Nat)
  /-- Behind a backslash and blanks that a line break must follow. -/
  | lineEnd
  /-- Behind such a line break, where all blanks are left out. -/
  | folded

/-- Text up to the closing quote. -/
def basic (tripled : Bool) (reading : Reading) : List Char → Option (List Char × List Char)
  | [] => none
  | c :: rest =>
    match reading with
    | .escape =>
      match escaped? c, codeLength? c with
      | some d, _ => push d (basic tripled .text rest)
      | none, some left => basic tripled (.code left 0) rest
      | none, none =>
        if tripled && startsBreak (c :: rest) then basic tripled .folded rest
        else if tripled && isBlank c then basic tripled .lineEnd rest
        else none
    | .code left value =>
      match hexDigit? c with
      | none => none
      | some digit =>
        let value := 16 * value + digit
        if 1 < left then basic tripled (.code (left - 1) value) rest
        else if value.isValidChar then push (Char.ofNat value) (basic tripled .text rest)
        else none
    | .lineEnd =>
      if startsBreak (c :: rest) then basic tripled .folded rest
      else if isBlank c then basic tripled .lineEnd rest
      else none
    | .text | .folded =>
      if reading matches .folded && (isBlank c || startsBreak (c :: rest)) then basic tripled .folded rest
      else if c = '\\' then basic tripled .escape rest
      else if c = quote then
        match close? quote tripled (c :: rest) with
        | some closed => some closed
        | none => push c (basic tripled .text rest)
      else if isPlain c || (tripled && startsBreak (c :: rest)) then push c (basic tripled .text rest)
      else none

/-- Text up to the closing apostrophe. -/
def literal (tripled : Bool) : List Char → Option (List Char × List Char)
  | [] => none
  | c :: rest =>
    if c = apostrophe then
      match close? apostrophe tripled (c :: rest) with
      | some closed => some closed
      | none => push c (literal tripled rest)
    else if isPlain c || (tripled && startsBreak (c :: rest)) then push c (literal tripled rest)
    else none

/-- What stands between marks on one line. -/
def onLine? : List Char → Option (List Char × List Char)
  | [] => none
  | c :: rest =>
    if c = quote then basic false .text rest
    else if c = apostrophe then literal false rest
    else none

/-- Past the line break that may follow a tripled mark. -/
def dropBreak (s : List Char) : List Char := (afterBreak? s).getD s

def read? (s : List Char) : Option (List Char × List Char) :=
  if s.take 3 = [quote, quote, quote] then basic true .text (dropBreak (s.drop 3))
  else if s.take 3 = [apostrophe, apostrophe, apostrophe] then literal true (dropBreak (s.drop 3))
  else onLine? s

end Quoted

end ModalEdit.Toml
