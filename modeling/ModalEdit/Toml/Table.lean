import ModalEdit.Toml.Number

/-!
The tables of a configuration file and how its lines build them up. A heading defines a table once and
brings the tables on its path into being where they are missing; a dotted key does so for the tables that
it names. A table that is written out on its line takes nothing more, and no key is given twice.
-/

set_option autoImplicit false

namespace ModalEdit.Toml

abbrev Key := List Char

/-- How a table came into being, which says what may still be added to it. -/
inductive TableForm where
  /-- Written out between braces. -/
  | closed
  /-- On the path of a heading. -/
  | implied
  /-- On the path of a dotted key. -/
  | dotted
  /-- By a heading of its own. -/
  | headed
  deriving DecidableEq, Repr

inductive Value where
  | string (s : List Char)
  | integer (n : Int)
  | boolean (b : Bool)
  /-- A number with a point or an exponent; infinity and what is no number have no digits. -/
  | float (d : Option Decimal)
  /-- A date, a time or both. -/
  | moment (literal : List Char)
  | array (items : List Value)
  | table (form : TableForm) (entries : List (Key × Value))
  /-- The tables of double headings. -/
  | tables (items : List Value)

abbrev Table := List (Key × Value)

namespace Table

def put (t : Table) (key : Key) (v : Value) : Table :=
  if (t.lookup key).isSome then t.map fun entry ↦ if entry.1 = key then (key, v) else entry
  else t ++ [(key, v)]

end Table

namespace Value

/-- The table that a path goes on in at a value, and the value again around that table changed. Of the
tables of double headings it is the last. -/
def inner? : Value → Option (Table × (Table → Value))
  | table .closed _ => none
  | table form t => some (t, table form)
  | tables items =>
    match items.getLast? with
    | some (table form t) => some (t, fun t ↦ tables (items.dropLast ++ [table form t]))
    | _ => none
  | _ => none

mutual

/-- Whether all numbers in a value are small enough to be held. -/
def isHeld : Value → Bool
  | integer n => isHeldInteger n
  | float d => d.all Decimal.isFinite
  | array items | tables items => areHeld items
  | table _ entries => entriesHeld entries
  | string _ | boolean _ | moment _ => true

def areHeld : List Value → Bool
  | [] => true
  | v :: items => v.isHeld && areHeld items

def entriesHeld : List (Key × Value) → Bool
  | [] => true
  | (_, v) :: entries => v.isHeld && entriesHeld entries

end

/-- Whether a dotted key may go on in a value. The last table on its path must be one that dotted keys
made. -/
def takesDotted (last : Bool) : Value → Bool
  | table .dotted _ => true
  | table .implied _ | tables _ => !last
  | _ => false

end Value

namespace Table

/-- Changes the table at the path of a heading. -/
def within : List Key → (Table → Option Table) → Table → Option Table
  | [], change, t => change t
  | key :: path, change, t =>
    match t.lookup key with
    | none => (within path change []).map fun inner ↦ t.put key (.table .implied inner)
    | some v => do
      let (inner, around) ← v.inner?
      return t.put key (around (← within path change inner))

def addHeading (key : Key) (t : Table) : Option Table :=
  match t.lookup key with
  | none => some (t.put key (.table .headed []))
  | some (.table .implied inner) => some (t.put key (.table .headed inner))
  | some _ => none

def addDoubleHeading (key : Key) (t : Table) : Option Table :=
  match t.lookup key with
  | none => some (t.put key (.tables [.table .headed []]))
  | some (.tables items) => some (t.put key (.tables (items ++ [.table .headed []])))
  | some _ => none

/-- Gives a value to a key of a table, or to a dotted key below it. -/
def assign (v : Value) : List Key → Table → Option Table
  | [], _ => none
  | [key], t => if (t.lookup key).isSome then none else some (t.put key v)
  | key :: next :: path, t =>
    match t.lookup key with
    | none => (assign v (next :: path) []).map fun inner ↦ t.put key (.table .dotted inner)
    | some old =>
      if old.takesDotted path.isEmpty then do
        let (inner, around) ← old.inner?
        return t.put key (around (← assign v (next :: path) inner))
      else none

end Table

end ModalEdit.Toml
