import ModalEdit.Editor.Basic

/-!
A document written with its carets and selections: a marker stands at the offset of each caret, and one
before and one behind each selection. Where markers meet, the end of a selection is written first, then
the start of one, then carets.
-/

set_option autoImplicit false

namespace ModalEdit

inductive Marker where
  | selectionEnd
  | selectionStart
  | caret
  deriving DecidableEq, Repr

namespace Marker

def text : Marker → List Char
  | selectionEnd => "\x7b/selection\x7d".toList
  | selectionStart => "\x7bselection\x7d".toList
  | caret => "\x7bcaret\x7d".toList

/-- The order in which markers at one offset are written. -/
def rank : Marker → Nat
  | selectionEnd => 0
  | selectionStart => 1
  | caret => 2

def all : List Marker := [selectionEnd, selectionStart, caret]

/-- What follows a beginning, if the text has it. -/
def rest? : List Char → List Char → Option (List Char)
  | [], s => some s
  | _ :: _, [] => none
  | c :: start, d :: s => if c = d then rest? start s else none

theorem length_of_rest? {start s rest : List Char} (h : rest? start s = some rest) :
    rest.length + start.length = s.length := by
  induction start generalizing s with
  | nil => simp_all [rest?]
  | cons c start ih =>
    cases s with
    | nil => simp [rest?] at h
    | cons d s =>
      simp only [rest?] at h
      split at h
      · have := ih h
        simp only [List.length_cons]
        omega
      · simp at h

/-- The marker that a text begins with, and what follows it. -/
def read? (s : List Char) : Option (Marker × List Char) :=
  all.findSome? fun marker ↦ (rest? marker.text s).map (marker, ·)

theorem length_lt_of_read? {s rest : List Char} {marker : Marker} (h : read? s = some (marker, rest)) :
    rest.length < s.length := by
  obtain ⟨m, -, hm⟩ := List.exists_of_findSome?_eq_some h
  obtain ⟨r, hr, he⟩ := Option.map_eq_some_iff.1 hm
  obtain ⟨rfl, rfl⟩ := Prod.mk.inj he
  have := length_of_rest? hr
  have : 0 < m.text.length := by cases m <;> decide
  omega

end Marker

inductive MarkedError where
  | unbalancedSelection (offset : Nat)
  deriving DecidableEq, Repr

namespace MarkedError

def message : MarkedError → String
  | unbalancedSelection offset => "unbalanced selection marker at character " ++ toString offset

end MarkedError

/-- A text with carets and selections, each in the order in which the markers stood. -/
structure MarkedText where
  text : Text := []
  carets : List Nat := []
  selections : List (Nat × Nat) := []
  deriving DecidableEq, Repr

namespace MarkedText

/-- Reads on at an offset, with the start of the selection that is open. -/
def parseFrom (offset : Nat) (opened : Option Nat) (s : List Char) : Except MarkedError MarkedText :=
  match h : Marker.read? s with
  | some (.caret, rest) => do
    have := Marker.length_lt_of_read? h
    let marked ← parseFrom offset opened rest
    return { marked with carets := offset :: marked.carets }
  | some (.selectionStart, rest) =>
    have := Marker.length_lt_of_read? h
    match opened with
    | some _ => .error (.unbalancedSelection offset)
    | none => parseFrom offset (some offset) rest
  | some (.selectionEnd, rest) =>
    have := Marker.length_lt_of_read? h
    match opened with
    | none => .error (.unbalancedSelection offset)
    | some start => do
      let marked ← parseFrom offset none rest
      return { marked with selections := (start, offset) :: marked.selections }
  | none =>
    match s with
    | [] =>
      match opened with
      | some start => .error (.unbalancedSelection start)
      | none => .ok {}
    | c :: rest => do
      let marked ← parseFrom (offset + 1) opened rest
      return { marked with text := c :: marked.text }
termination_by s.length

def parse (s : List Char) : Except MarkedError MarkedText := parseFrom 0 none s

/-- The markers by offset, in the order in which they are written. -/
def markers (m : MarkedText) : List (Nat × Marker) :=
  let unsorted := m.selections.flatMap (fun (start, stop) ↦
    [(start, Marker.selectionStart), (stop, Marker.selectionEnd)]) ++ m.carets.map ((·, Marker.caret))
  unsorted.mergeSort fun a b ↦ a.1 < b.1 || (a.1 == b.1 && a.2.rank ≤ b.2.rank)

/-- Writes each marker before the character at its offset, and those past the end behind the last. -/
def weave : Nat → List (Nat × Marker) → List Char → List Char
  | _, markers, [] => markers.flatMap (·.2.text)
  | offset, markers, c :: rest =>
    (markers.takeWhile (·.1 ≤ offset)).flatMap (·.2.text) ++
      c :: weave (offset + 1) (markers.dropWhile (·.1 ≤ offset)) rest

def render (m : MarkedText) : List Char := weave 0 m.markers m.text

end MarkedText

namespace Editor

/-- Gives the selections to the carets in order; one without a caret gets a caret at its end. -/
def addSelections (e : Editor) : List (Nat × (Nat × Nat)) → Editor
  | [] => e
  | (index, (start, stop)) :: rest =>
    let (caret, e) :=
      match e.caretIds[index]? with
      | some caret => (caret, e)
      | none => e.spawnCaret stop
    (e.storeSelection caret start stop).addSelections rest

/-- The editor that a marked text describes; with no caret it gets one at the start. -/
def ofMarked (m : MarkedText) : Editor :=
  let bare : Editor := { buffer := { text := m.text } }
  let e := m.carets.foldl (fun e offset ↦ (e.spawnCaret offset).2) bare
  let e := e.addSelections (m.selections.zipIdx.map fun (selection, index) ↦ (index, selection))
  if e.carets.isEmpty then (e.spawnCaret 0).2 else e

def toMarked (e : Editor) : MarkedText where
  text := e.text
  carets := e.caretIds.filterMap e.caretOffset?
  selections := (e.caretIds.filterMap e.selection?).filter fun (start, stop) ↦ start < stop

end Editor

end ModalEdit
