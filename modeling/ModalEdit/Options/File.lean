import ModalEdit.Options
import ModalEdit.Toml.Document

/-!
Options from a configuration file. They come in three sections, and what a file leaves out keeps its
default. A section may also be a list of its values in order, and a date or a time in its place says
nothing. A file in which some value is of the wrong sort gives no options at all. What it says beyond the
options is passed over, but its numbers have to be such that can be held.
-/

set_option autoImplicit false

namespace ModalEdit.Options

open Toml (Table Value)

/-- The sections, and how many values each has. -/
def sections : List (String × Nat) := [("options", 2), ("input", 2), ("extensions", 1)]

/-- What is looked at of a value of the whole file. A section that is a list is left where its values end. -/
def lookedAt (name : Toml.Key) (part : Value) : Value :=
  match part, sections.lookup (String.ofList name) with
  | .array items, some count => .array (items.take count)
  | part, _ => part

/-- A value of a section by its name, or in a list by its place. -/
def valueOf? (part : Value) (place : Nat) (name : String) : Option (Option Value) :=
  match part with
  | .table _ entries => some (entries.lookup name.toList)
  | .array items | .tables items => some items[place]?
  | .moment _ => some none
  | _ => none

/-- What a section says, or else the default; none if it says something of the wrong sort. -/
def optionOf? {α : Type} (t : Table) (part : String) (place : Nat) (name : String) (default : α)
    (decode? : Value → Option α) : Option α :=
  match t.lookup part.toList with
  | none => some default
  | some part => do
    match ← valueOf? part place name with
    | none => some default
    | some v => decode? v

def listOf? {α : Type} (decode? : Value → Option α) : Value → Option (List α)
  | .array items | .tables items => items.mapM decode?
  | _ => none

/-- A flag by its name, which may be the only key of a table with nothing in it. -/
def flag? {α : Type} (ofName? : String → Option α) : Value → Option α
  | .string name => ofName? (String.ofList name)
  | .table _ [(name, .array [])] | .table _ [(name, .table _ [])] => ofName? (String.ofList name)
  | _ => none

def string? : Value → Option String
  | .string s => some (String.ofList s)
  | _ => none

def boolean? : Value → Option Bool
  | .boolean b => some b
  | _ => none

/-- A number of milliseconds in 32 bits. -/
def milliseconds? : Value → Option Nat
  | .integer n => if 0 ≤ n ∧ n < 0x100000000 then some n.toNat else none
  | _ => none

def ofTable? (t : Table) : Option Options := do
  let default : Options := {}
  return {
    keymodel := ← optionOf? t "options" 0 "keymodel" default.keymodel (listOf? (flag? KeyModelFlag.ofName?))
    selectmode :=
      ← optionOf? t "options" 1 "selectmode" default.selectmode (listOf? (flag? SelectModeFlag.ofName?))
    timeout := ← optionOf? t "input" 0 "timeout" default.timeout boolean?
    timeoutlen := ← optionOf? t "input" 1 "timeoutlen" default.timeoutlen milliseconds?
    extensions := ← optionOf? t "extensions" 0 "enabled" default.extensions (listOf? string?) }

def ofFile? (s : List Char) : Option Options := do
  let t ← Toml.parse? s
  if t.all fun (name, part) ↦ (lookedAt name part).isHeld then ofTable? t else none

end ModalEdit.Options
