/-!
Marks: offsets that follow the text they point at through every edit. A mark stays put when text is
inserted right at it, and text removed around it leaves it at the start of the gap. No mark is given out
twice.
-/

set_option autoImplicit false

namespace ModalEdit

/-- A mark by the order of its creation. -/
structure Mark where
  serial : Nat
  deriving DecidableEq, Repr

/-- The live marks with their offsets, oldest first, and the mark to be given out next. -/
structure MarkSet where
  next : Nat := 0
  live : List (Mark × Nat) := []
  deriving DecidableEq, Repr

namespace MarkSet

def create (s : MarkSet) (offset : Nat) : Mark × MarkSet :=
  (⟨s.next⟩, { next := s.next + 1, live := s.live ++ [(⟨s.next⟩, offset)] })

def get? (s : MarkSet) (mark : Mark) : Option Nat := s.live.lookup mark

def mapOffsets (s : MarkSet) (f : Mark → Nat → Nat) : MarkSet :=
  { s with live := s.live.map fun (mark, offset) ↦ (mark, f mark offset) }

/-- A mark that is not live is left alone. -/
def set (s : MarkSet) (mark : Mark) (offset : Nat) : MarkSet :=
  s.mapOffsets fun other current ↦ if other = mark then offset else current

def release (s : MarkSet) (mark : Mark) : MarkSet :=
  { s with live := s.live.filter fun (other, _) ↦ other ≠ mark }

def size (s : MarkSet) : Nat := s.live.length

/-- The new offset of what stood at an offset before text was inserted. -/
def offsetAfterInsert (insertedAt length offset : Nat) : Nat :=
  if insertedAt < offset then offset + length else offset

/-- The new offset of what stood at an offset before a span was removed. -/
def offsetAfterErase (start stop offset : Nat) : Nat :=
  if stop ≤ offset then offset - (stop - start) else min offset start

def afterInsert (s : MarkSet) (insertedAt length : Nat) : MarkSet :=
  s.mapOffsets fun _ ↦ offsetAfterInsert insertedAt length

def afterErase (s : MarkSet) (start stop : Nat) : MarkSet :=
  s.mapOffsets fun _ ↦ offsetAfterErase start stop

end MarkSet

end ModalEdit
