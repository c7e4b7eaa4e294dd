import ModalEdit.Range
import ModalEdit.Text.Basic

/-!
Registers. What is yanked or deleted without a letter goes to the unnamed register; a yank also to `"0`,
a delete to the front of the nine numbered ones. A small letter replaces its register, a capital appends
to it, and either leaves the outcome in the unnamed register too. `"_` takes nothing.
-/

set_option autoImplicit false

namespace ModalEdit

structure RegisterContent where
  text : Text
  kind : RangeKind
  deriving DecidableEq, Repr

structure Registers where
  unnamed : Option RegisterContent := none
  lastYank : Option RegisterContent := none
  /-- Newest first. -/
  deleted : List RegisterContent := []
  /-- By small letter. -/
  named : List (Char × RegisterContent) := []
  deriving DecidableEq, Repr

namespace Registers

def deletedLimit : Nat := 9

def blackHole : Char := '_'

def isValidName (c : Char) : Bool := c.isAlphanum || ['"', '-', '_', '+', '*'].contains c

/-- What a write leaves in a letter's register. -/
def written (r : Registers) (letter : Char) (content : RegisterContent) : RegisterContent :=
  match r.named.lookup letter.toLower with
  | some existing =>
    if letter.isUpper then { existing with text := existing.text ++ content.text } else content
  | none => content

def writeNamed (r : Registers) (letter : Char) (content : RegisterContent) : Registers :=
  let outcome := r.written letter content
  { r with
    unnamed := some outcome
    named := (letter.toLower, outcome) :: r.named.filter (·.1 != letter.toLower) }

def recordYank (r : Registers) (target : Option Char) (content : RegisterContent) : Registers :=
  if target = some blackHole then r
  else
    match target.filter Char.isAlpha with
    | some letter => r.writeNamed letter content
    | none => { r with unnamed := some content, lastYank := some content }

def recordDelete (r : Registers) (target : Option Char) (content : RegisterContent) : Registers :=
  if target = some blackHole then r
  else
    match target.filter Char.isAlpha with
    | some letter => r.writeNamed letter content
    | none =>
      { r with unnamed := some content, deleted := (content :: r.deleted).take deletedLimit }

/-- What a name stands for; no name is the unnamed register. -/
def get? (r : Registers) (name : Option Char) : Option RegisterContent :=
  match name with
  | none => r.unnamed
  | some c =>
    if c = '"' then r.unnamed
    else if c = '0' then r.lastYank
    else if c.isDigit then r.deleted[c.toNat - '1'.toNat]?
    else if c.isAlpha then r.named.lookup c.toLower
    else none

end Registers

end ModalEdit
