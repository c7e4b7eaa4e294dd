/-!
Spans of a document as commands act on them: by characters, by whole lines or by a block of columns.
-/

set_option autoImplicit false

namespace ModalEdit

inductive RangeKind where
  | characterwise
  | linewise
  | blockwise
  deriving DecidableEq, Repr

/-- A span from an offset up to, but without, another. -/
structure TextRange where
  start : Nat
  stop : Nat
  kind : RangeKind
  start_le_stop : start ≤ stop := by omega
  deriving DecidableEq, Repr

namespace TextRange

/-- The span between two offsets in either order. -/
def between (a b : Nat) (kind : RangeKind) : TextRange where
  start := min a b
  stop := max a b
  kind := kind

def length (r : TextRange) : Nat := r.stop - r.start

def isEmpty (r : TextRange) : Bool := r.start == r.stop

def contains (r : TextRange) (offset : Nat) : Bool := r.start ≤ offset && offset < r.stop

theorem contains_iff {r : TextRange} {offset : Nat} :
    r.contains offset = true ↔ r.start ≤ offset ∧ offset < r.stop := by
  simp only [contains, Bool.and_eq_true, decide_eq_true_eq]

theorem contains_eq_false_iff {r : TextRange} {offset : Nat} :
    r.contains offset = false ↔ offset < r.start ∨ r.stop ≤ offset := by
  rw [← Bool.not_eq_true, contains_iff]
  omega

end TextRange

end ModalEdit
