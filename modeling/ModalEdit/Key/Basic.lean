import ModalEdit.Unicode.CaseMapping

/-!
Key strokes: a key with the modifiers held down. Every printable key, the space bar included, is the
character it types. Where Shift and Ctrl can be told from the character, `KeyStroke.normalized` folds
them into it.
-/

set_option autoImplicit false

namespace ModalEdit

inductive KeyCode where
  | char (c : Char)
  | enter
  | escape
  | backspace
  | tab
  | delete
  | up
  | down
  | left
  | right
  | home
  | endKey
  deriving DecidableEq, Repr

structure Modifiers where
  ctrl : Bool := false
  alt : Bool := false
  shift : Bool := false
  deriving DecidableEq, Repr

structure KeyStroke where
  code : KeyCode
  mods : Modifiers := {}
  deriving DecidableEq, Repr

abbrev Keys := List KeyStroke

namespace KeyStroke

/-- Shift with a character other than space gives its capital and is dropped; Ctrl without Shift gives
the small ASCII letter. -/
def normalized (code : KeyCode) (mods : Modifiers) : KeyStroke :=
  match code with
  | .char c =>
    if mods.shift && c != ' ' then
      { code := .char ((Unicode.toUpper c).headD c), mods := { mods with shift := false } }
    else if mods.ctrl then { code := .char c.toLower, mods }
    else { code := .char c, mods }
  | _ => { code, mods }

def char (c : Char) : KeyStroke := { code := .char c }

def escape : KeyStroke := { code := .escape }

/-- The character a stroke types: that of a printable key without Ctrl and Alt. -/
def typedChar? (s : KeyStroke) : Option Char :=
  match s.code with
  | .char c => if s.mods.ctrl || s.mods.alt then none else some c
  | _ => none

/-- The value of a stroke in a count. -/
def digit? (s : KeyStroke) : Option Nat :=
  match s.typedChar? with
  | some c => if c.isDigit then some (c.toNat - '0'.toNat) else none
  | none => none

def isEscape (s : KeyStroke) : Bool := s == escape

/-! ### Order -/

end KeyStroke

namespace KeyCode

/-- Printable keys come first, by code point. -/
def rank : KeyCode → Nat × Nat
  | char c => (0, c.toNat)
  | enter => (1, 0)
  | escape => (2, 0)
  | backspace => (3, 0)
  | tab => (4, 0)
  | delete => (5, 0)
  | up => (6, 0)
  | down => (7, 0)
  | left => (8, 0)
  | right => (9, 0)
  | home => (10, 0)
  | endKey => (11, 0)

end KeyCode

namespace KeyStroke

/-- Ctrl weighs least and Shift most. -/
def modifierRank (mods : Modifiers) : Nat := mods.ctrl.toNat + 2 * mods.alt.toNat + 4 * mods.shift.toNat

/-- By key, and then by modifiers. -/
def le (a b : KeyStroke) : Bool :=
  let (ka, ca) := a.code.rank
  let (kb, cb) := b.code.rank
  if ka != kb then ka < kb
  else if ca != cb then ca < cb
  else modifierRank a.mods ≤ modifierRank b.mods

end KeyStroke

end ModalEdit
