/-!
A document is the list of its characters, and an offset counts characters from its start. Offsets past
the end are read as the end, and the two ends of a span may come in either order.
-/

set_option autoImplicit false

namespace ModalEdit

abbrev Text := List Char

namespace Text

def charAt (t : Text) (offset : Nat) : Option Char := t[offset]?

def slice (t : Text) (a b : Nat) : Text := (t.drop (min a b)).take (max a b - min a b)

def insert (t : Text) (offset : Nat) (s : Text) : Text := t.take offset ++ s ++ t.drop offset

/-- The document without the characters of the span. -/
def erase (t : Text) (a b : Nat) : Text := t.take (min a b) ++ t.drop (max a b)

@[simp] theorem length_insert (t s : Text) (offset : Nat) :
    (t.insert offset s).length = t.length + s.length := by
  simp only [insert, List.length_append, List.length_take, List.length_drop]
  omega

theorem length_erase (t : Text) (a b : Nat) :
    (t.erase a b).length = t.length - (min (max a b) t.length - min (min a b) t.length) := by
  simp only [erase, List.length_append, List.length_take, List.length_drop]
  omega

end Text

end ModalEdit
