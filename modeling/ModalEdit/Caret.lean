import ModalEdit.Text.Column

/-!
What is remembered of each caret between commands: where it is, where its selection began, the column it
aims at and where the typing in progress began. The table is kept in the order of the carets' ids.
-/

set_option autoImplicit false

namespace ModalEdit

structure CaretId where
  serial : Nat
  deriving DecidableEq, Repr

structure CaretState where
  offset : Nat
  selectionStart : Option Nat := none
  goal : Option GoalColumn := none
  insertStart : Option Nat := none
  deriving DecidableEq, Repr

structure CaretTable where
  entries : List (CaretId × CaretState) := []
  deriving DecidableEq, Repr

namespace CaretTable

def get? (t : CaretTable) (id : CaretId) : Option CaretState := t.entries.lookup id

def insertSorted (id : CaretId) (state : CaretState) :
    List (CaretId × CaretState) → List (CaretId × CaretState)
  | [] => [(id, state)]
  | entry :: rest =>
    if id.serial < entry.1.serial then (id, state) :: entry :: rest
    else entry :: insertSorted id state rest

/-- A caret that is already there keeps what is known of it. -/
def add (t : CaretTable) (id : CaretId) (offset : Nat) : CaretTable :=
  if (t.get? id).isSome then t else ⟨insertSorted id { offset } t.entries⟩

def remove (t : CaretTable) (id : CaretId) : CaretTable := ⟨t.entries.filter (·.1 ≠ id)⟩

/-- A caret that is not there is left out. -/
def modify (t : CaretTable) (id : CaretId) (f : CaretState → CaretState) : CaretTable :=
  ⟨t.entries.map fun entry ↦ if entry.1 = id then (id, f entry.2) else entry⟩

def size (t : CaretTable) : Nat := t.entries.length

/-- Takes over the carets that are there now, with their offsets; what else is known of them stays. -/
def sync (t : CaretTable) (live : List (CaretId × Nat)) : CaretTable :=
  live.foldl (fun t (id, offset) ↦ (t.add id offset).modify id ({ · with offset }))
    ⟨t.entries.filter fun entry ↦ live.any (·.1 = entry.1)⟩

/-- The carets from the start of the document to its end, by id where they meet. -/
def orderedByOffset (t : CaretTable) : List CaretId :=
  (t.entries.mergeSort fun a b ↦ a.2.offset ≤ b.2.offset).map (·.1)

def clearSelections (t : CaretTable) : CaretTable :=
  ⟨t.entries.map fun (id, state) ↦ (id, { state with selectionStart := none })⟩

end CaretTable

end ModalEdit
